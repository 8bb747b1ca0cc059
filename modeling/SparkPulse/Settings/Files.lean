import Mathlib.Data.List.AList
import SparkPulse.Program.Threads

/-!
# Settings and secrets

`config.py`: `update`, `save_secret` and `delete_secret` each read a whole file, edit what was read
and put the result in the file's place, all without a lock. A file that cannot be opened, or is no
JSON, is read as if it were empty.

So a call loses what others keep in the file when its read failed, or when somebody replaced the
file after it was read. When neither happens, every key holds what was last written to it.
-/

namespace SparkPulse.Settings

open Program Prog

/-! ## Files -/

/-- `settings.json` and `secrets.json` -/
inductive Which
  | settings
  | secrets
  deriving DecidableEq, Repr

variable {V : Type}

abbrev Key := String

/-- What a JSON file can hold: an object, or anything else. -/
inductive Content (V : Type)
  | object (entries : AList fun _ : Key ↦ V)
  | other (value : V)

/-- A file as a call finds it. -/
inductive File (V : Type)
  | missing
  /-- It is not JSON. -/
  | damaged
  /-- It is not text; reading it raises what nobody catches. -/
  | undecodable
  | json (content : Content V)

inductive Failure
  /-- The text of the file cannot be decoded. -/
  | unicodeError
  /-- What the file holds is not an object. -/
  | typeError
  /-- The new file could not be written, or a value cannot be encoded. -/
  | writeError
  deriving DecidableEq, Repr

/-- What is set under a key, or that it is taken out. -/
abbrev Edit (V : Type) := Key × Option V

/-- Set a key or take it out. -/
def put (entries : AList fun _ : Key ↦ V) (e : Edit V) : AList fun _ : Key ↦ V :=
  match e.2 with
  | some value => entries.insert e.1 value
  | none => entries.erase e.1

def Content.edit (c : Content V) (edits : List (Edit V)) : Except Failure (Content V) :=
  match c with
  | .object entries => .ok (.object (edits.foldl put entries))
  | .other value => if edits = [] then .ok (.other value) else .error .typeError

/-- `_load_user_settings` and `_load_secrets`, when the file can be opened or not. -/
def File.load (file : File V) (readable : Bool) : Except Failure (Content V) :=
  match file with
  | .missing => .ok (.object ∅)
  | .damaged => .ok (.object ∅)
  | .undecodable => if readable then .error .unicodeError else .ok (.object ∅)
  | .json content => .ok (if readable then content else .object ∅)

/-! ## Calls -/

inductive Call (V : Type)
  | load (file : Which)
  /-- `write_json_atomic`, of what the edits made of what was read. -/
  | save (file : Which) (edits : List (Edit V)) (content : Content V)

@[reducible] def Call.Ret : Call V → Type
  | load _ => Except Failure (Content V)
  | save .. => Except Failure Unit

abbrev Op (V : Type) := Prog (Call V) Call.Ret Failure

/-- Make one call. -/
abbrev invoke (c : Call V) : Op V c.Ret := Prog.call c

/-- `_save_user_settings` and `_save_secrets` -/
def saveFile (file : Which) (edits : List (Edit V)) (content : Content V) : Op V Unit := do
  match ← invoke (.save file edits content) with
  | .error exc => Prog.raise exc
  | .ok () => return

/-- Edit what was read, and replace the file. -/
def editAndSave (file : Which) (edits : List (Edit V)) (content : Content V) : Op V Unit :=
  match content.edit edits with
  | .error exc => Prog.raise exc
  | .ok edited => saveFile file edits edited

/-- Read a file, edit it and replace it. -/
def rewrite (file : Which) (edits : List (Edit V)) : Op V Unit := do
  match ← invoke (.load file) with
  | .error exc => Prog.raise exc
  | .ok content => editAndSave file edits content

/-- What `update` sets: the fields that have a value and are not managed by the environment. -/
def settable (envManaged : Key → Bool) (fields : List (Key × Option V)) : List (Edit V) :=
  fields.filter fun e ↦ e.2.isSome ∧ !envManaged e.1

/-- `update` -/
def update (envManaged : Key → Bool) (fields : List (Key × Option V)) : Op V Unit :=
  rewrite .settings (settable envManaged fields)

def saveSecret (key : Key) (value : V) : Op V Unit := rewrite .secrets [(key, some value)]

def deleteSecret (key : Key) : Op V Unit := rewrite .secrets [(key, none)]

/-- A call from outside. -/
inductive Request (V : Type)
  | update (fields : List (Key × Option V))
  | saveSecret (key : Key) (value : V)
  | deleteSecret (key : Key)

def Request.program (envManaged : Key → Bool) : Request V → Op V Unit
  | .update fields => Settings.update envManaged fields
  | .saveSecret key value => Settings.saveSecret key value
  | .deleteSecret key => Settings.deleteSecret key

/-- The file that a request edits. -/
def Request.file : Request V → Which
  | .update _ => .settings
  | .saveSecret .. | .deleteSecret _ => .secrets

/-- What a request names, and what for. -/
def Request.edits (envManaged : Key → Bool) : Request V → List (Edit V)
  | .update fields => settable envManaged fields
  | .saveSecret key value => [(key, some value)]
  | .deleteSecret key => [(key, none)]

theorem Request.program_eq (envManaged : Key → Bool) (r : Request V) :
    r.program envManaged = rewrite r.file (r.edits envManaged) := by
  cases r <;> rfl

/-! ## Threads -/

/-- A file that was replaced: by whom, which, and the edits. -/
structure Commit (V : Type) where
  thread : ℕ
  file : Which
  edits : List (Edit V)

/-- The files, and what is recorded beside them: what each thread has read, and the replacements. -/
structure World (V : Type) where
  files : Which → File V
  read : ℕ → Option (Content V) := fun _ ↦ none
  commits : List (Commit V) := []

/-- What the schedule decides about one call: whether the file can be opened or written. -/
structure Answer where
  works : Bool := true

/-- `write_json_atomic`, when it works. -/
def World.replace (w : World V) (i : ℕ) (file : Which) (edits : List (Edit V))
    (content : Content V) : World V :=
  { w with
    files := Function.update w.files file (.json content)
    commits := w.commits ++ [⟨i, file, edits⟩] }

/-- The effect of a call. -/
def Call.exec (i : ℕ) (w : World V) (c : Call V) (a : Answer) : Option (c.Ret × World V) :=
  match c with
  | .load file =>
    let found := (w.files file).load a.works
    some (found, { w with read := Function.update w.read i found.toOption })
  | .save file edits content =>
    if a.works then some (.ok (), w.replace i file edits content)
    else some (.error .writeError, w)

/-- The threads that still have to run, and the files. -/
abbrev Machine (V : Type) := Threads ℕ (Call.Ret (V := V)) Failure Unit (World V)

/-- All interleavings of requests over any files. -/
def system (envManaged : Key → Bool) (requests : ℕ → Request V) :
    Transition.System (Machine V) (ℕ × Answer) :=
  Threads.system Call.exec fun s ↦
    (∀ i, s.pool i = (requests i).program envManaged) ∧ s.world.read = (fun _ ↦ none) ∧
      s.world.commits = []

/-! ## What is kept -/

/-- What a content has under a key. -/
def Content.value : Content V → Key → Option V
  | .object entries, key => entries.lookup key
  | .other _, _ => none

def File.value : File V → Key → Option V
  | .json content, key => content.value key
  | _, _ => none

/-- What a file holds, when it can be told; a file that is missing is empty. -/
def File.content? : File V → Option (Content V)
  | .missing => some (.object ∅)
  | .json content => some content
  | .damaged | .undecodable => none

/-- The edits of one file, in the order they were made in. -/
def World.editsOf (w : World V) (file : Which) : List (Edit V) :=
  (w.commits.filter fun c ↦ c.file = file).flatMap Commit.edits

/-- The replacements that a thread made. -/
def World.madeBy (w : World V) (i : ℕ) : List (Commit V) := w.commits.filter fun c ↦ c.thread = i

/-- The last thing that edits say of a key. -/
def lastEdit (edits : List (Edit V)) (key : Key) : Option (Option V) :=
  (edits.reverse.find? fun e ↦ e.1 = key).map Prod.snd

/-- What was made of files: one that nobody replaced is as it was, and in the others every key has
what was last written to it, or what it had. -/
structure Traced (v w : World V) : Prop where
  untouched : ∀ file, (∀ c ∈ w.commits, c.file ≠ file) → w.files file = v.files file
  readable : ∀ c ∈ w.commits, ((v.files c.file).content?).isSome
  notObject : ∀ file value, v.files file = .json (.other value) → w.files file = v.files file
  value : ∀ file key, (w.files file).value key =
    (lastEdit (w.editsOf file) key).getD ((v.files file).value key)

/-- What requests have done: one that raised has replaced nothing, and one that returned has made
its own edits once. -/
structure Kept (envManaged : Key → Bool) (requests : ℕ → Request V) (v : World V)
    (t : Machine V) : Prop where
  raised : ∀ i exc, t.pool i = .raise exc → t.world.madeBy i = []
  returned : ∀ i, t.pool i = .ret () →
    t.world.madeBy i = [⟨i, (requests i).file, (requests i).edits envManaged⟩]
  traced : Traced v t.world

/-! ## Undisturbed calls -/

/-- Two contents are alike but for some keys. -/
def Content.AgreesOff (names : List Key) : Content V → Content V → Prop
  | .object entries, .object entries' => ∀ key ∈ entries.keys ++ entries'.keys, key ∉ names →
      entries.lookup key = entries'.lookup key
  | .other value, .other value' => value = value'
  | _, _ => False

/-- A file that is replaced is still, but for the keys that the call names, what the call has read
of it. -/
def undisturbed : Threads.CallGuard ℕ (Call V) (World V) := fun i w c ↦
  match c with
  | .load _ => True
  | .save file edits _ => ∃ now ∈ (w.files file).content?, ∃ found ∈ w.read i,
      now.AgreesOff (edits.map Prod.fst) found

section
variable {e : Edit V} {es es' : List (Edit V)} {key : Key} {c c' : Content V}

theorem lastEdit_append : lastEdit (es ++ es') key = (lastEdit es' key).or (lastEdit es key) := by
  rw [lastEdit, List.reverse_append, List.find?_append, Option.map_or]
  rfl

theorem lastEdit_singleton : lastEdit [e] key = if e.1 = key then some e.2 else none := by
  rw [lastEdit, List.reverse_singleton, List.find?_singleton]
  split_ifs <;> simp_all

theorem lastEdit_eq_none (h : lastEdit es key = none) : key ∉ es.map Prod.fst := by
  intro hkey
  obtain ⟨e, he, rfl⟩ := List.mem_map.mp hkey
  rw [lastEdit, Option.map_eq_none_iff, List.find?_eq_none] at h
  exact h e (List.mem_reverse.mpr he) (decide_eq_true rfl)

theorem lookup_edit (entries : AList fun _ : Key ↦ V) :
    (es.foldl put entries).lookup key = (lastEdit es key).getD (entries.lookup key) := by
  induction es generalizing entries with
  | nil => rfl
  | cons e es ih =>
    rw [List.foldl_cons, ih, ← List.singleton_append, lastEdit_append, Option.getD_or,
      lastEdit_singleton]
    congr 1
    obtain ⟨name, value⟩ := e
    by_cases hkey : name = key
    · subst hkey
      rcases value with _ | value
      · simp [put]
      · simp [put]
    · rcases value with _ | value
      · simp [put, hkey, AList.lookup_erase_ne (Ne.symm hkey)]
      · simp [put, hkey, AList.lookup_insert_ne (Ne.symm hkey)]

theorem edit_other {value : V} (h : (Content.other value).edit es = .ok c) : c = .other value := by
  rw [Content.edit] at h
  split_ifs at h
  exact (Except.ok.inj h).symm

/-- What a content has under a key after some edits. -/
theorem value_edit (h : c.edit es = .ok c') :
    c'.value key = (lastEdit es key).getD (c.value key) := by
  rcases c with entries | value
  · obtain rfl := Except.ok.inj h
    exact lookup_edit entries
  · rw [Content.edit] at h
    split_ifs at h with hes
    obtain rfl := Except.ok.inj h
    subst hes
    rfl

/-- What was made of what is alike but for the keys that are named is what the edits make of it. -/
theorem value_edit_of_agreesOff {now found : Content V} (h : found.edit es = .ok c)
    (hagree : now.AgreesOff (es.map Prod.fst) found) :
    c.value key = (lastEdit es key).getD (now.value key) := by
  rw [value_edit h]
  rcases hlast : lastEdit es key with _ | value
  · rw [Option.getD_none, Option.getD_none]
    rcases now with entries | value <;> rcases found with entries' | value'
    · by_cases hkey : key ∈ entries.keys ++ entries'.keys
      · exact (hagree key hkey (lastEdit_eq_none hlast)).symm
      · rw [List.mem_append, not_or, ← AList.mem_keys, ← AList.mem_keys] at hkey
        rw [Content.value, Content.value, AList.lookup_eq_none.mpr hkey.1,
          AList.lookup_eq_none.mpr hkey.2]
    · exact hagree.elim
    · exact hagree.elim
    · rfl
  · rfl

theorem value_of_content {file : File V} (h : file.content? = some c) :
    file.value key = c.value key := by
  cases file with
  | missing =>
    obtain rfl := Option.some.inj h
    rfl
  | json content =>
    obtain rfl := Option.some.inj h
    rfl
  | damaged => cases h
  | undecodable => cases h

end

section
variable {v w : World V} {i : ℕ} {file : Which} {es : List (Edit V)} {c : Content V}

theorem files_replace (other : Which) : (w.replace i file es c).files other =
    if other = file then .json c else w.files other := Function.update_apply ..

theorem editsOf_replace (other : Which) : (w.replace i file es c).editsOf other =
    if other = file then w.editsOf other ++ es else w.editsOf other := by
  rw [World.editsOf, World.replace, List.filter_append, List.flatMap_append, ← World.editsOf]
  split_ifs with h
  · subst h
    simp
  · simp [Ne.symm h]

/-- The step rule: replacing a file by what the edits make of what it is, but for the keys they
name. -/
theorem Traced.replace (h : Traced v w) {now found : Content V}
    (hnow : (w.files file).content? = some now) (hagree : now.AgreesOff (es.map Prod.fst) found)
    (hedit : found.edit es = .ok c) : Traced v (w.replace i file es c) where
  untouched other hother := by
    have hne : other ≠ file := fun heq ↦
      hother ⟨i, file, es⟩ (List.mem_append_right _ List.mem_cons_self) heq.symm
    rw [files_replace, if_neg hne]
    exact h.untouched other fun c hc ↦ hother c (List.mem_append_left _ hc)
  readable := by
    intro commit hcommit
    rcases List.mem_append.mp hcommit with hcommit | hcommit
    · exact h.readable commit hcommit
    · obtain rfl := List.mem_singleton.mp hcommit
      by_cases hmade : ∀ c ∈ w.commits, c.file ≠ file
      · rw [← h.untouched file hmade, hnow]
        rfl
      · push Not at hmade
        obtain ⟨c', hc', rfl⟩ := hmade
        exact h.readable c' hc'
  notObject := by
    intro other value hother
    by_cases hne : other = file
    · subst hne
      have hsame := h.notObject other value hother
      rw [hsame, hother] at hnow
      obtain rfl := Option.some.inj hnow
      rcases found with entries | value'
      · exact hagree.elim
      · obtain rfl : value = value' := hagree
        rw [files_replace, if_pos rfl, hother, edit_other hedit]
    · rw [files_replace, if_neg hne]
      exact h.notObject other value hother
  value := by
    intro other key
    rw [editsOf_replace]
    by_cases hne : other = file
    · subst hne
      rw [if_pos rfl, files_replace, if_pos rfl, lastEdit_append, Option.getD_or, ← h.value,
        value_of_content hnow]
      exact value_edit_of_agreesOff hedit hagree
    · rw [if_neg hne, files_replace, if_neg hne]
      exact h.value other key

end

/-! ## Requests beside each other -/

/-- What the other threads leave to a thread. -/
def Keeps (i : ℕ) (v w : World V) : Prop := w.read i = v.read i ∧ w.madeBy i = v.madeBy i

/-- Each thread in its surroundings, where what was made of files can be traced. -/
abbrev tracing (v : World V) : ℕ → Setting (Call.Ret (V := V)) (World V) :=
  Threads.sharing Call.exec undisturbed (Traced v) Keeps

theorem compatible_tracing (v : World V) : Threads.Compatible (tracing v) :=
  Threads.compatible_sharing (fun _ _ ↦ ⟨rfl, rfl⟩) fun _ _ _ _ huv hvw ↦
    ⟨hvw.1.trans huv.1, hvw.2.trans huv.2⟩

section
variable {v w : World V} {i : ℕ} {file : Which} {es : List (Edit V)}

theorem madeBy_replace (j : ℕ) {c : Content V} : (w.replace i file es c).madeBy j =
    w.madeBy j ++ if i = j then [⟨i, file, es⟩] else [] := by
  rw [World.madeBy, World.replace, List.filter_append, ← World.madeBy]
  split_ifs with h
  · simp [h]
  · simp [h]

theorem safe_saveFile {content edited : Content V} (hedit : content.edit es = .ok edited)
    (htraced : Traced v w) (hread : w.read i = some content) (hnone : w.madeBy i = []) :
    (saveFile file es edited).Safe (tracing v i)
      (fun _ w ↦ Traced v w ∧ w.madeBy i = [⟨i, file, es⟩])
      (fun _ w ↦ Traced v w ∧ w.madeBy i = []) w := by
  refine Threads.safe_sharing_op (P := fun w ↦ w.read i = some content ∧ w.madeBy i = [])
    (fun _ _ hkeep h ↦ ⟨hkeep.1.trans h.1, hkeep.2.trans h.2⟩) ⟨htraced, hread, hnone⟩ ?_
  rintro u written u' hu ⟨hread, hnone⟩ ⟨hguard, a, hexec⟩
  rw [Call.exec] at hexec
  split_ifs at hexec with hworks
  · obtain ⟨rfl, rfl⟩ := Prod.mk.inj (Option.some.inj hexec)
    obtain ⟨now, hnow, found, hfound, hagree⟩ := hguard
    obtain rfl := Option.some.inj (hread.symm.trans hfound)
    have hreplaced := hu.replace hnow hagree hedit (i := i)
    refine ⟨⟨hreplaced, fun j hj ↦ ⟨rfl, ?_⟩⟩, hreplaced, ?_⟩
    · rw [madeBy_replace, if_neg (Ne.symm hj), List.append_nil]
    · rw [madeBy_replace, if_pos rfl, hnone, List.nil_append]
  · obtain ⟨rfl, rfl⟩ := Prod.mk.inj (Option.some.inj hexec)
    exact ⟨⟨hu, fun j _ ↦ ⟨rfl, rfl⟩⟩, hu, hnone⟩

theorem safe_editAndSave {content : Content V} (htraced : Traced v w)
    (hread : w.read i = some content) (hnone : w.madeBy i = []) :
    (editAndSave file es content).Safe (tracing v i)
      (fun _ w ↦ Traced v w ∧ w.madeBy i = [⟨i, file, es⟩])
      (fun _ w ↦ Traced v w ∧ w.madeBy i = []) w := by
  rw [editAndSave]
  rcases hedit : content.edit es with exc | edited
  · exact ⟨htraced, hnone⟩
  · exact safe_saveFile hedit htraced hread hnone

/-- **One request.** It raises and has replaced nothing, or returns and has made its edits. -/
theorem safe_rewrite (htraced : Traced v w) (hnone : w.madeBy i = []) :
    (rewrite file es).Safe (tracing v i)
      (fun _ w ↦ Traced v w ∧ w.madeBy i = [⟨i, file, es⟩])
      (fun _ w ↦ Traced v w ∧ w.madeBy i = []) w := by
  refine Threads.safe_sharing_op (P := fun w ↦ w.madeBy i = [])
    (fun _ _ hkeep h ↦ hkeep.2.trans h) ⟨htraced, hnone⟩ ?_
  rintro u found u' hu hnone ⟨-, a, hexec⟩
  obtain ⟨rfl, rfl⟩ := Prod.mk.inj (Option.some.inj hexec)
  have hread : Traced v { u with
      read := Function.update u.read i ((u.files file).load a.works).toOption } :=
    ⟨hu.untouched, hu.readable, hu.notObject, hu.value⟩
  refine ⟨⟨hread, fun j hj ↦ ⟨Function.update_of_ne hj .., rfl⟩⟩, ?_⟩
  rcases hload : (u.files file).load a.works with exc | content
  · rw [hload] at hread
    exact ⟨hread, hnone⟩
  · rw [hload] at hread
    exact safe_editAndSave hread (Function.update_self ..) hnone

end

/-- **Nothing is lost in undisturbed runs.** When every file that is replaced still is what the call
read of it, but for the keys that the call names, then every call fails and leaves the file as it
was or makes its own edits, and every key has what was last written to it. -/
theorem kept_of_undisturbed {envManaged : Key → Bool} {requests : ℕ → Request V}
    {s t : Machine V} (hs : (system envManaged requests).init s)
    (h : (system envManaged requests).Steps (Threads.stepGuard undisturbed) s t) :
    Kept envManaged requests s.world t := by
  obtain ⟨hpool, -, hcommits⟩ := hs
  have hnone : ∀ i, s.world.madeBy i = [] := fun i ↦ by rw [World.madeBy, hcommits]; rfl
  have htraced : Traced s.world s.world := by
    refine ⟨fun _ _ ↦ rfl, ?_, fun _ _ _ ↦ rfl, fun file key ↦ ?_⟩
    · rw [hcommits]
      exact fun c hc ↦ nomatch hc
    · rw [World.editsOf, hcommits]
      rfl
  obtain ⟨hpoised, ht⟩ := Threads.Poised.sharing_steps (compatible_tracing s.world) h htraced
    fun i ↦ by
      rw [hpool, Request.program_eq]
      exact safe_rewrite htraced (hnone i)
  refine ⟨fun i exc hi ↦ ?_, fun i hi ↦ ?_, ht⟩
  · obtain ⟨v, hrely, hsafe⟩ := hpoised i
    rw [hi] at hsafe
    exact (hrely hsafe.1).2.2.trans hsafe.2
  · obtain ⟨v, hrely, hsafe⟩ := hpoised i
    rw [hi] at hsafe
    exact (hrely hsafe.1).2.2.trans hsafe.2

/-! ## Two secrets -/

section
variable [DecidableEq V]

instance (names : List Key) (c c' : Content V) : Decidable (c.AgreesOff names c') := by
  unfold Content.AgreesOff
  split <;> infer_instance

instance (i : ℕ) (w : World V) (c : Call V) : Decidable (undisturbed i w c) := by
  unfold undisturbed
  split <;> infer_instance

end

/-- The first thread saves one secret and the others save another. -/
private def twoSecrets : ℕ → Request ℕ
  | 0 => .saveSecret "hf_token" 1
  | _ => .saveSecret "oidc_client_secret" 2

private def unmanaged : Key → Bool := fun _ ↦ false

private def nothingSaved : Machine ℕ :=
  ⟨fun i ↦ (twoSecrets i).program unmanaged, { files := fun _ ↦ .missing }⟩

private def readsAndWrites (i : ℕ) : List (ℕ × Answer) := [(i, {}), (i, {})]

/-- What the secrets have under a key, and what was last written to it. -/
private def keptAndSaved (key : Key) (t : Machine ℕ) : Option ℕ × Option (Option ℕ) :=
  ((t.world.files .secrets).value key, lastEdit (t.world.editsOf .secrets) key)

/-- Secrets that are saved one after the other are both kept. -/
theorem kept_one_after_the_other :
    ∃ t, (system unmanaged twoSecrets).runUnder (Threads.stepGuard undisturbed) nothingSaved
        (readsAndWrites 0 ++ readsAndWrites 1) = some t ∧
      (t.world.files .secrets).value "hf_token" = some 1 ∧
      Kept unmanaged twoSecrets nothingSaved.world t := by
  have hrun : ((system unmanaged twoSecrets).runUnder (Threads.stepGuard undisturbed) nothingSaved
      (readsAndWrites 0 ++ readsAndWrites 1)).map (keptAndSaved "hf_token") =
        some (some 1, some (some 1)) := by
    decide +kernel
  obtain ⟨t, ht, hview⟩ := Option.map_eq_some_iff.mp hrun
  exact ⟨t, ht, (Prod.mk.inj hview).1,
    kept_of_undisturbed ⟨fun _ ↦ rfl, rfl, rfl⟩ (Transition.System.steps_of_runUnder ht)⟩

/-- Of two secrets that are saved at once, the one that is written first is lost. -/
theorem saved_at_once_not_kept :
    ∃ s t, (system unmanaged twoSecrets).init s ∧
      (system unmanaged twoSecrets).Steps Transition.Guard.free s t ∧
        ¬Kept unmanaged twoSecrets s.world t := by
  have hrun : ((system unmanaged twoSecrets).run nothingSaved
      [(0, {}), (1, {}), (0, {}), (1, {})]).map (keptAndSaved "hf_token") =
        some (none, some (some 1)) := by
    decide +kernel
  obtain ⟨t, ht, hview⟩ := Option.map_eq_some_iff.mp hrun
  obtain ⟨hheld, hlast⟩ := Prod.mk.inj hview
  refine ⟨nothingSaved, t, ⟨fun _ ↦ rfl, rfl, rfl⟩, Transition.System.steps_of_run ht,
    fun hkept ↦ ?_⟩
  have hvalue := hkept.traced.value .secrets "hf_token"
  rw [hheld, hlast] at hvalue
  cases hvalue

end SparkPulse.Settings
