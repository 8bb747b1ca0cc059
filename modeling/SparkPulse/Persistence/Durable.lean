import SparkPulse.Persistence.AtomicJson

/-!
# State files are registers

However writers and readers interleave, whatever call fails and whenever the power goes, each state
file is a register: a reader finds the initial text or one that a writer passed, whole, and the last
one unless the power has gone since the directory was synced. Nothing is moved aside if every writer
writes what the readers expect. A writer that returns or raises leaves no temporary file.
-/

namespace SparkPulse.AtomicJson

open Filesystem Program Transition

variable {δ : Type}

/-! ## What happened to one file -/

/-- What an event is to the register of a name. -/
def Event.act (name : String) : Event → Option (Act String)
  | replaced _ target text => if target = name then some (.stored text) else none
  | movedFrom _ source => if source = name then some (.stored none) else none
  | synced => some .synced
  | lost left => some (.lost (left name))
  | opened _ other text => if other = name then some (.loaded text) else none
  | stuck _ => none

def acts (name : String) (log : List Event) : List (Act String) := log.filterMap (Event.act name)

/-- The register of a name, when everything is on stable storage. -/
def register (init : Volume String String) (name : String) : Register String :=
  ⟨init.content name, {init.content name}⟩

/-- Everything that is not a temporary file is on stable storage. -/
structure Clean (init : Volume String String) : Prop where
  held : ∀ n, isTemp n = false → init.held n = [init.entries n]
  synced : ∀ n f, isTemp n = false → init.entries n = some f → init.synced f = true
  young : ∀ f, init.synced f = true → f < init.next

section
variable (format : Format δ) (jobs : Tid → Job)

/-- A text that every reader of the file can make something of. -/
def Good (name text : String) : Prop :=
  ∀ j expect, jobs j = .read name expect →
    ∃ data, format.load text = .ok data ∧ ¬(expect ≠ [] ∧ format.typeName data ∉ expect)

/-- Files are named like files, and hold what their readers expect, at first and when written. -/
structure Fits (init : Volume String String) : Prop where
  name : ∀ i path text mode, jobs i = .write path text mode → isTemp path = false
  reads : ∀ i path expect, jobs i = .read path expect → isTemp path = false
  init : ∀ n text, isTemp n = false → init.content n = some text → Good format jobs n text
  writes : ∀ i path text mode, jobs i = .write path text mode → Good format jobs path text

variable (init : Volume String String)

/-! ## What holds of the world -/

structure Sound (w : World) : Prop where
  settled : ∀ n, isTemp n = false →
    w.volume.Settled n ((register init n).after (acts n w.log))
  lawful : ∀ n, isTemp n = false → (register init n).Lawful (acts n w.log)
  good : ∀ n f, isTemp n = false → some f ∈ w.volume.held n → Good format jobs n (w.volume.data f)
  temps : ∀ temp j f, w.temps temp = some (j, f) →
    isTemp temp = true ∧ f < w.volume.next ∧ (j ∈ w.begun ∨ j ∈ w.dead)
  sole : ∀ temp temp' j j' f, w.temps temp = some (j, f) → w.temps temp' = some (j', f) → temp = temp'
  replaced : ∀ j target text, .replaced j target text ∈ w.log →
    ∃ t mode, jobs j = .write target t mode ∧ text = some t
  moved : ∀ j source, .movedFrom j source ∈ w.log → isTemp source = true
  dead : ∀ j ∈ w.dead, ∃ left, .lost left ∈ w.log
  young : ∀ f, w.volume.synced f = true → f < w.volume.next

end

/-- The temporary files of a thread are left to it. -/
structure Mine (i : Tid) (v w : World) : Prop where
  temps : ∀ temp f, w.temps temp = some (i, f) ↔ v.temps temp = some (i, f)
  entry : ∀ temp f, v.temps temp = some (i, f) → w.volume.entries temp = v.volume.entries temp
  file : ∀ temp f, v.temps temp = some (i, f) →
    w.volume.data f = v.volume.data f ∧ w.volume.synced f = v.volume.synced f
  hidden : ∀ temp f n, v.temps temp = some (i, f) → isTemp n = false → some f ∉ v.volume.held n →
    some f ∉ w.volume.held n

/-- What the other threads leave to a thread: what was synced, and until the power goes the
temporary files that are its own. -/
structure Keeps (i : Tid) (v w : World) : Prop where
  dead : ∀ j ∈ v.dead, j ∈ w.dead
  log : v.log <:+ w.log
  frozen : ∀ f, v.volume.synced f = true →
    w.volume.synced f = true ∧ w.volume.data f = v.volume.data f
  mine : i ∈ w.dead ∨ Mine i v w

theorem Mine.refl (i : Tid) (w : World) : Mine i w w :=
  ⟨fun _ _ ↦ .rfl, fun _ _ _ ↦ rfl, fun _ _ _ ↦ ⟨rfl, rfl⟩, fun _ _ _ _ _ h ↦ h⟩

theorem Mine.trans {i : Tid} {u v w : World} (huv : Mine i u v) (hvw : Mine i v w) : Mine i u w where
  temps temp f := (hvw.temps temp f).trans (huv.temps temp f)
  entry temp f h :=
    (hvw.entry temp f ((huv.temps temp f).mpr h)).trans (huv.entry temp f h)
  file temp f h := by
    obtain ⟨hdata, hsynced⟩ := hvw.file temp f ((huv.temps temp f).mpr h)
    obtain ⟨hdata', hsynced'⟩ := huv.file temp f h
    exact ⟨hdata.trans hdata', hsynced.trans hsynced'⟩
  hidden temp f n h hn hmem :=
    hvw.hidden temp f n ((huv.temps temp f).mpr h) hn (huv.hidden temp f n h hn hmem)

theorem Keeps.refl (i : Tid) (w : World) : Keeps i w w :=
  ⟨fun _ h ↦ h, List.suffix_rfl, fun _ h ↦ ⟨h, rfl⟩, .inr (.refl i w)⟩

theorem Keeps.trans (i : Tid) (u v w : World) (huv : Keeps i u v) (hvw : Keeps i v w) :
    Keeps i u w := by
  refine ⟨fun j h ↦ hvw.dead j (huv.dead j h), huv.log.trans hvw.log, fun f h ↦ ?_, ?_⟩
  · obtain ⟨hv, hdata⟩ := huv.frozen f h
    obtain ⟨hw, hdata'⟩ := hvw.frozen f hv
    exact ⟨hw, hdata'.trans hdata⟩
  · rcases huv.mine with hdead | huv
    · exact .inl (hvw.dead i hdead)
    · exact hvw.mine.imp_right huv.trans

section
variable (format : Format δ) (jobs : Tid → Job) (init : Volume String String)

abbrev shared (i : Tid) : Setting Call.Ret World :=
  Threads.sharing Call.exec (fun _ _ _ ↦ True) (Sound format jobs init) Keeps i

theorem compatible_shared : Threads.Compatible (shared format jobs init) :=
  Threads.compatible_sharing Keeps.refl Keeps.trans

/-- What a call leaves. -/
structure Leaves (i : Tid) (v w : World) : Prop where
  sound : Sound format jobs init w
  keeps : ∀ j, j ≠ i → Keeps j v w

variable {format : Format δ} {jobs : Tid → Job} {init : Volume String String} {i : Tid}
  {v w : World}

/-! ## Steps that leave the files alone -/

theorem sound_begin (hv : Sound format jobs init v) (i : Tid) :
    Sound format jobs init { v with begun := i :: v.begun } :=
  { hv with
    temps := fun temp j f h ↦ by
      obtain ⟨htemp, hold, hj⟩ := hv.temps temp j f h
      exact ⟨htemp, hold, hj.imp_left (List.mem_cons_of_mem i)⟩ }

theorem Mine.of_files (htemps : w.temps = v.temps) (hvolume : w.volume = v.volume) : Mine i v w := by
  constructor
  · intro temp f
    rw [htemps]
  · intro temp f _
    rw [hvolume]
  · intro temp f _
    rw [hvolume]
    exact ⟨rfl, rfl⟩
  · intro temp f n _ _ h
    rwa [hvolume]

theorem Keeps.of_files (hdead : w.dead = v.dead) (hlog : v.log <:+ w.log)
    (htemps : w.temps = v.temps) (hvolume : w.volume = v.volume) : Keeps i v w :=
  ⟨fun _ h ↦ hdead ▸ h, hlog, fun _ h ↦ by rw [hvolume]; exact ⟨h, rfl⟩,
    .inr (.of_files htemps hvolume)⟩

theorem keeps_begin (v : World) (i j : Tid) : Keeps j v { v with begun := i :: v.begun } :=
  .of_files rfl List.suffix_rfl rfl rfl

/-- A step that changes the modes of files, or nothing. -/
theorem leaves_modes (hv : Sound format jobs init v) (modes : Nat → Nat) :
    Leaves format jobs init i v { v with modes } :=
  ⟨{ hv with }, fun _ _ ↦ .of_files rfl List.suffix_rfl rfl rfl⟩

theorem acts_cons (n : String) (e : Event) (log : List Event) :
    acts n (e :: log) = (e.act n).toList ++ acts n log := by
  rw [acts, List.filterMap_cons]
  cases e.act n <;> rfl

/-- An open is a load. -/
theorem leaves_opened (hv : Sound format jobs init v) (name : String) :
    Leaves format jobs init i v
      { v with log := .opened i name (v.volume.content name) :: v.log } := by
  have hacts (n : String) (log : List Event) : acts n (.opened i name (v.volume.content name) :: log) =
      if name = n then .loaded (v.volume.content name) :: acts n log else acts n log := by
    rw [acts_cons, Event.act]
    split_ifs <;> rfl
  refine ⟨⟨fun n hn ↦ ?_, fun n hn ↦ ?_, hv.good, hv.temps, hv.sole, fun j target text h ↦ ?_,
    fun j source h ↦ ?_, fun j h ↦ ?_, hv.young⟩, fun _ _ ↦ .of_files rfl (List.suffix_cons _ _) rfl rfl⟩
  · rw [hacts]
    split_ifs
    · exact hv.settled n hn
    · exact hv.settled n hn
  · rw [hacts]
    split_ifs with hname
    · subst hname
      exact ⟨(hv.settled name hn).now.symm, hv.lawful name hn⟩
    · exact hv.lawful n hn
  · exact hv.replaced j target text ((List.mem_cons.mp h).resolve_left nofun)
  · exact hv.moved j source ((List.mem_cons.mp h).resolve_left nofun)
  · obtain ⟨left, hleft⟩ := hv.dead j h
    exact ⟨left, List.mem_cons_of_mem _ hleft⟩

theorem leaves_stuck (hv : Sound format jobs init v) :
    Leaves format jobs init i v { v with log := .stuck i :: v.log } := by
  refine ⟨⟨hv.settled, hv.lawful, hv.good, hv.temps, hv.sole, fun j target text h ↦ ?_,
    fun j source h ↦ ?_, fun j h ↦ ?_, hv.young⟩, fun _ _ ↦ .of_files rfl (List.suffix_cons _ _) rfl rfl⟩
  · exact hv.replaced j target text ((List.mem_cons.mp h).resolve_left nofun)
  · exact hv.moved j source ((List.mem_cons.mp h).resolve_left nofun)
  · obtain ⟨left, hleft⟩ := hv.dead j h
    exact ⟨left, List.mem_cons_of_mem _ hleft⟩

/-! ## Steps on a temporary file -/

theorem ne_of_isTemp {n temp : String} (hn : isTemp n = false) (htemp : isTemp temp = true) :
    n ≠ temp := by
  rintro rfl
  rw [hn] at htemp
  cases htemp

/-- A step on the temporary file of a thread, which changes it only while no other name leads to
it. -/
theorem leaves_of_file {W : Volume String String} {temp : String} {f : Nat}
    (hv : Sound format jobs init v) (htemp : v.temps temp = some (i, f))
    (hshown : ∀ n, isTemp n = false → some f ∈ v.volume.held n →
      W.data f = v.volume.data f ∧ W.synced f = v.volume.synced f)
    (hentries : ∀ n, n ≠ temp → W.entries n = v.volume.entries n)
    (hheld : ∀ n, n ≠ temp → W.held n = v.volume.held n) (hnext : W.next = v.volume.next)
    (hfile : ∀ g, g ≠ f → W.data g = v.volume.data g ∧ W.synced g = v.volume.synced g)
    (hf : v.volume.synced f = true → W.synced f = true ∧ W.data f = v.volume.data f) :
    Leaves format jobs init i v { v with volume := W } := by
  obtain ⟨hname, hold, -⟩ := hv.temps temp i f htemp
  have hne {n : String} (hn : isTemp n = false) : n ≠ temp := ne_of_isTemp hn hname
  have hg {n : String} {g : Nat} (hn : isTemp n = false) (h : some g ∈ v.volume.held n) :
      W.data g = v.volume.data g ∧ W.synced g = v.volume.synced g := by
    rcases eq_or_ne g f with rfl | hgf
    · exact hshown n hn h
    · exact hfile g hgf
  refine ⟨⟨fun n hn ↦ ?_, hv.lawful, fun n g hn h ↦ ?_, fun temp' j g h ↦ ?_, hv.sole, hv.replaced,
    hv.moved, hv.dead, fun g h ↦ ?_⟩, fun j hj ↦ ⟨fun _ h ↦ h, List.suffix_rfl, fun g h ↦ ?_, .inr ?_⟩⟩
  · have hsettled := hv.settled n hn
    refine hsettled.of_kept (hentries n (hne hn)) (hheld n (hne hn)) hnext.ge fun g h ↦ ?_
    obtain ⟨hdata, hsynced⟩ := hg hn h
    exact ⟨hsynced.trans (hsettled.synced g h), hdata⟩
  · change some g ∈ W.held n at h
    rw [hheld n (hne hn)] at h
    change Good format jobs n (W.data g)
    rw [(hg hn h).1]
    exact hv.good n g hn h
  · change _ ∧ g < W.next ∧ _
    rw [hnext]
    exact hv.temps temp' j g h
  · change g < W.next
    rw [hnext]
    rcases eq_or_ne g f with rfl | hgf
    · exact hold
    · exact hv.young g ((hfile g hgf).2.symm.trans h)
  · rcases eq_or_ne g f with rfl | hgf
    · exact hf h
    · obtain ⟨hdata, hsynced⟩ := hfile g hgf
      exact ⟨hsynced.trans h, hdata⟩
  · have hother {temp' : String} {g : Nat} (h : v.temps temp' = some (j, g)) :
        temp' ≠ temp ∧ g ≠ f := by
      have hname' : temp' ≠ temp := by
        rintro rfl
        rw [htemp] at h
        exact hj (Prod.mk.inj (Option.some.inj h)).1.symm
      exact ⟨hname', fun heq ↦ hname' (hv.sole temp' temp j i f (heq ▸ h) htemp)⟩
    refine ⟨fun _ _ ↦ .rfl, fun temp' g h ↦ hentries temp' (hother h).1,
      fun temp' g h ↦ hfile g (hother h).2, fun temp' g n _ hn h ↦ ?_⟩
    change some g ∉ W.held n
    rwa [hheld n (hne hn)]

theorem leaves_mkstemp {temp : String} (hv : Sound format jobs init v) (hname : isTemp temp = true)
    (hnew : v.temps temp = none) (hi : i ∈ v.begun) :
    Leaves format jobs init i v (v.mkstemp i temp) := by
  have hentry {n : String} (hn : n ≠ temp) :
      (v.mkstemp i temp).volume.entries n = v.volume.entries n := Function.update_of_ne hn ..
  have hheld {n : String} (hn : isTemp n = false) :
      (v.mkstemp i temp).volume.held n = v.volume.held n :=
    Function.update_of_ne (ne_of_isTemp hn hname) ..
  have hfile {f : Nat} (hf : f < v.volume.next) :
      (v.mkstemp i temp).volume.data f = v.volume.data f ∧
        (v.mkstemp i temp).volume.synced f = v.volume.synced f :=
    ⟨Function.update_of_ne hf.ne .., Function.update_of_ne hf.ne ..⟩
  have htemps {temp' : String} {j : Tid} {f : Nat}
      (h : (v.mkstemp i temp).temps temp' = some (j, f)) :
      temp' = temp ∧ j = i ∧ f = v.volume.next ∨ temp' ≠ temp ∧ v.temps temp' = some (j, f) := by
    change Function.update v.temps temp (some (i, v.volume.next)) temp' = _ at h
    rcases eq_or_ne temp' temp with rfl | hne
    · rw [Function.update_self] at h
      obtain ⟨rfl, rfl⟩ := Prod.mk.inj (Option.some.inj h)
      exact .inl ⟨rfl, rfl, rfl⟩
    · rw [Function.update_of_ne hne] at h
      exact .inr ⟨hne, h⟩
  have hold {n : String} {f : Nat} (hn : isTemp n = false) (h : some f ∈ v.volume.held n) :
      f < v.volume.next := (hv.settled n hn).old f h
  refine ⟨⟨fun n hn ↦ (hv.settled n hn).create (ne_of_isTemp hn hname) "", hv.lawful,
    fun n f hn h ↦ ?_, fun temp' j f h ↦ ?_, fun t t' j j' f h h' ↦ ?_, hv.replaced, hv.moved, hv.dead,
    fun f h ↦ ?_⟩, fun j hj ↦ ⟨fun _ h ↦ h, List.suffix_rfl, fun f h ↦ ?_, .inr ⟨fun temp' f ↦ ?_,
      fun temp' f h ↦ ?_, fun temp' f h ↦ hfile (hv.temps temp' j f h).2.1,
      fun temp' f n _ hn h ↦ by rwa [hheld hn]⟩⟩⟩
  · rw [hheld hn] at h
    rw [(hfile (hold hn h)).1]
    exact hv.good n f hn h
  · rcases htemps h with ⟨rfl, rfl, rfl⟩ | ⟨-, h⟩
    · exact ⟨hname, Nat.lt_succ_self _, .inl hi⟩
    · obtain ⟨htemp, hlt, hj⟩ := hv.temps temp' j f h
      exact ⟨htemp, Nat.lt_succ_of_lt hlt, hj⟩
  · rcases htemps h with ⟨rfl, -, hf⟩ | ⟨-, hold⟩ <;> rcases htemps h' with ⟨rfl, -, hf'⟩ | ⟨-, hold'⟩
    · rfl
    · exact absurd hf (hv.temps t' j' f hold').2.1.ne
    · exact absurd hf' (hv.temps t j f hold).2.1.ne
    · exact hv.sole t t' j j' f hold hold'
  · change Function.update v.volume.synced v.volume.next false f = true at h
    rcases eq_or_ne f v.volume.next with rfl | hne
    · exact Nat.lt_succ_self _
    · rw [Function.update_of_ne hne] at h
      exact Nat.lt_succ_of_lt (hv.young f h)
  · obtain ⟨hdata, hsynced⟩ := hfile (hv.young f h)
    exact ⟨hsynced.trans h, hdata⟩
  · refine ⟨fun h ↦ ?_, fun h ↦ ?_⟩
    · rcases htemps h with ⟨-, heq, -⟩ | ⟨-, h⟩
      · exact absurd heq hj
      · exact h
    · have hne : temp' ≠ temp := by
        rintro rfl
        rw [hnew] at h
        cases h
      exact (Function.update_of_ne hne ..).trans h
  · refine hentry ?_
    rintro rfl
    rw [hnew] at h
    cases h

/-- The temporary file becomes the file, and has in it what the thread was to write. -/
theorem leaves_replace {temp path text : String} {f mode : Nat} (hv : Sound format jobs init v)
    (hfits : Fits format jobs init) (hjob : jobs i = .write path text mode)
    (htemp : v.temps temp = some (i, f)) (hentry : v.volume.entries temp = some f)
    (hdata : v.volume.data f = text) (hsynced : v.volume.synced f = true) :
    Leaves format jobs init i v (v.replace i temp path) := by
  obtain ⟨hname, hold, -⟩ := hv.temps temp i f htemp
  have hpath := hfits.name i path text mode hjob
  have hcontent : v.volume.content temp = some text := by
    rw [Volume.content, hentry, Option.map_some, hdata]
  have hacts {n : String} (hn : isTemp n = false) : acts n (v.replace i temp path).log =
      if path = n then .stored (some text) :: acts n v.log else acts n v.log := by
    have hmoved : (Event.movedFrom i temp).act n = none := if_neg (ne_of_isTemp hn hname).symm
    rw [World.replace, hcontent, acts_cons, acts_cons, hmoved, Event.act]
    split_ifs <;> rfl
  have hheld {n : String} (hn : isTemp n = false) : (v.replace i temp path).volume.held n =
      if n = path then some f :: v.volume.held n else v.volume.held n := by
    change Function.update (Function.update v.volume.held path
      (v.volume.entries temp :: v.volume.held path)) temp _ n = _
    rw [Function.update_of_ne (ne_of_isTemp hn hname), hentry]
    split_ifs with hn'
    · rw [hn', Function.update_self]
    · rw [Function.update_of_ne hn']
  refine ⟨⟨fun n hn ↦ ?_, fun n hn ↦ ?_, fun n g hn h ↦ ?_, hv.temps, hv.sole,
    fun j target text' h ↦ ?_, fun j source h ↦ ?_, fun j h ↦ ?_, hv.young⟩,
    fun j hj ↦ ⟨fun _ h ↦ h, ?_, fun g h ↦ ⟨h, rfl⟩, .inr ⟨fun _ _ ↦ .rfl, fun temp' g h ↦ ?_,
      fun _ _ _ ↦ ⟨rfl, rfl⟩, fun temp' g n h hn hnot ↦ ?_⟩⟩⟩
  · rw [hacts hn]
    split_ifs with hn'
    · subst hn'
      have h := (hv.settled path hn).rename (ne_of_isTemp hn hname) hentry hsynced hold
      rwa [hdata] at h
    · exact ((hv.settled n hn).point_of_ne (Ne.symm hn') _).point_of_ne (ne_of_isTemp hn hname) _
  · rw [hacts hn]
    split_ifs
    · exact ⟨trivial, hv.lawful n hn⟩
    · exact hv.lawful n hn
  · rw [hheld hn] at h
    change Good format jobs n (v.volume.data g)
    split_ifs at h with hn'
    · rcases List.mem_cons.mp h with heq | h
      · rw [Option.some.inj heq, hdata, hn']
        exact hfits.writes i path text mode hjob
      · exact hv.good n g hn h
    · exact hv.good n g hn h
  · rcases List.mem_cons.mp h with heq | h
    · cases heq
    rcases List.mem_cons.mp h with heq | h
    · cases heq
      exact ⟨text, mode, hjob, hcontent⟩
    · exact hv.replaced j target text' h
  · rcases List.mem_cons.mp h with heq | h
    · cases heq
      exact hname
    rcases List.mem_cons.mp h with heq | h
    · cases heq
    · exact hv.moved j source h
  · obtain ⟨left, hleft⟩ := hv.dead j h
    exact ⟨left, List.mem_cons_of_mem _ (List.mem_cons_of_mem _ hleft)⟩
  · exact (List.suffix_cons _ _).trans (List.suffix_cons _ _)
  · have hne : temp' ≠ temp := by
      rintro rfl
      rw [htemp] at h
      exact hj (Prod.mk.inj (Option.some.inj h)).1.symm
    have hne' : temp' ≠ path := (ne_of_isTemp hpath (hv.temps temp' j g h).1).symm
    exact (Function.update_of_ne hne ..).trans (Function.update_of_ne hne' ..)
  · rw [hheld hn]
    split_ifs
    · refine fun hmem ↦ (List.mem_cons.mp hmem).elim (fun heq ↦ ?_) hnot
      obtain rfl := Option.some.inj heq
      obtain rfl := hv.sole temp' temp j i g h htemp
      rw [htemp] at h
      exact hj (Prod.mk.inj (Option.some.inj h)).1.symm
    · exact hnot

/-! ## Steps on the directory -/

theorem leaves_syncDir (hv : Sound format jobs init v) : Leaves format jobs init i v
    { v with volume := v.volume.syncDir, log := .synced :: v.log } := by
  have hentry {n : String} {f : Option Nat} (hn : isTemp n = false)
      (h : f ∈ v.volume.syncDir.held n) : f ∈ v.volume.held n :=
    List.mem_singleton.mp h ▸ (hv.settled n hn).entry
  refine ⟨⟨fun n hn ↦ (hv.settled n hn).syncDir, fun n hn ↦ ⟨trivial, hv.lawful n hn⟩,
    fun n f hn h ↦ hv.good n f hn (hentry hn h), hv.temps, hv.sole, fun j target text h ↦ ?_,
    fun j source h ↦ ?_, fun j h ↦ ?_, hv.young⟩, fun j hj ↦ ⟨fun _ h ↦ h, List.suffix_cons _ _,
      fun _ h ↦ ⟨h, rfl⟩, .inr ⟨fun _ _ ↦ .rfl, fun _ _ _ ↦ rfl, fun _ _ _ ↦ ⟨rfl, rfl⟩,
        fun _ _ n _ hn hnot h ↦ hnot (hentry hn h)⟩⟩⟩
  · exact hv.replaced j target text ((List.mem_cons.mp h).resolve_left nofun)
  · exact hv.moved j source ((List.mem_cons.mp h).resolve_left nofun)
  · obtain ⟨left, hleft⟩ := hv.dead j h
    exact ⟨left, List.mem_cons_of_mem _ hleft⟩

/-- The power goes: what is lost, and whom it ends. -/
theorem leaves_lose (hv : Sound format jobs init v) (choice : String → Nat) (garbage : Nat → String) :
    Leaves format jobs init i v (v.lose choice garbage) := by
  have hentry {n : String} {f : Option Nat} (hn : isTemp n = false)
      (h : f ∈ (v.volume.lose choice garbage).held n) : f ∈ v.volume.held n :=
    List.mem_singleton.mp h ▸ (hv.settled n hn).lose_entry choice garbage
  have hdata {f : Nat} (h : v.volume.synced f = true) :
      (v.volume.lose choice garbage).data f = v.volume.data f := if_pos h
  refine ⟨⟨fun n hn ↦ ((hv.settled n hn).lose choice garbage).2,
    fun n hn ↦ ⟨((hv.settled n hn).lose choice garbage).1, hv.lawful n hn⟩, fun n f hn h ↦ ?_,
    fun temp j f h ↦ ?_, hv.sole, fun j target text h ↦ ?_, fun j source h ↦ ?_,
    fun j _ ↦ ⟨_, List.mem_cons_self⟩, hv.young⟩,
    fun j hj ↦ ⟨fun _ h ↦ List.mem_append_right _ h, List.suffix_cons _ _,
      fun f h ↦ ⟨h, hdata h⟩, ?_⟩⟩
  · have hmem := hentry hn h
    change Good format jobs n ((v.volume.lose choice garbage).data f)
    rw [hdata ((hv.settled n hn).synced f hmem)]
    exact hv.good n f hn hmem
  · obtain ⟨htemp, hold, hj⟩ := hv.temps temp j f h
    exact ⟨htemp, hold, .inr (List.mem_append.mpr hj)⟩
  · exact hv.replaced j target text ((List.mem_cons.mp h).resolve_left nofun)
  · exact hv.moved j source ((List.mem_cons.mp h).resolve_left nofun)
  · by_cases hend : j ∈ v.begun ∨ j ∈ v.dead
    · exact .inl (List.mem_append.mpr hend)
    · have hnone {temp : String} {f : Nat} (h : v.temps temp = some (j, f)) : False :=
        hend (hv.temps temp j f h).2.2
      exact .inr ⟨fun _ _ ↦ .rfl, fun _ _ h ↦ (hnone h).elim, fun _ _ h ↦ (hnone h).elim,
        fun _ _ _ h ↦ (hnone h).elim⟩

/-! ## What a thread knows -/

/-- What holds of a thread's own files, unless the power has ended it. -/
def Alive (i : Tid) (P : World → Prop) (w : World) : Prop := i ∈ w.dead ∨ P w

theorem Alive.keeps {P : World → Prop} (h : Alive i P v) (hkeep : Keeps i v w)
    (hP : Mine i v w → P v → P w) : Alive i P w := by
  rcases hkeep.mine with hdead | hmine
  · exact .inl hdead
  · exact h.imp (hkeep.dead i) (hP hmine)

/-- The one temporary file of a thread. -/
structure Owns (i : Tid) (temp : String) (f : Nat) (w : World) : Prop where
  mine : w.temps temp = some (i, f)
  only : ∀ temp' f', w.temps temp' = some (i, f') → temp' = temp

theorem Owns.keeps {temp : String} {f : Nat} (h : Owns i temp f v) (hmine : Mine i v w) :
    Owns i temp f w :=
  ⟨(hmine.temps temp f).mpr h.mine, fun temp' f' h' ↦ h.only temp' f' ((hmine.temps temp' f').mp h')⟩

/-- A temporary file that is being filled: what is in it, and whether it is synced. -/
structure Drafts (i : Tid) (temp : String) (f : Nat) (text : String) (synced : Bool) (w : World) : Prop
    extends Owns i temp f w where
  entry : w.volume.entries temp = some f
  hidden : ∀ n, isTemp n = false → some f ∉ w.volume.held n
  data : w.volume.data f = text
  isSynced : w.volume.synced f = synced

theorem Drafts.keeps {temp text : String} {f : Nat} {synced : Bool} (hmine : Mine i v w)
    (h : Drafts i temp f text synced v) : Drafts i temp f text synced w where
  toOwns := h.toOwns.keeps hmine
  entry := (hmine.entry temp f h.mine).trans h.entry
  hidden n hn := hmine.hidden temp f n h.mine hn (h.hidden n hn)
  data := (hmine.file temp f h.mine).1.trans h.data
  isSynced := (hmine.file temp f h.mine).2.trans h.isSynced

theorem keeps_drafts (i : Tid) (temp : String) (f : Nat) (text : String) (synced : Bool) (u v : World)
    (hkeep : Keeps i u v) (h : Alive i (Drafts i temp f text synced) u) :
    Alive i (Drafts i temp f text synced) v := h.keeps hkeep .keeps

theorem keeps_owns (i : Tid) (temp : String) (f : Nat) (u v : World) (hkeep : Keeps i u v)
    (h : Alive i (Owns i temp f) u) : Alive i (Owns i temp f) v :=
  h.keeps hkeep fun hmine h ↦ h.keeps hmine

/-- No temporary file of a thread is there. -/
def Tidy (i : Tid) (w : World) : Prop :=
  ∀ temp f, w.temps temp = some (i, f) → w.volume.entries temp = none

theorem Tidy.keeps (hmine : Mine i v w) (h : Tidy i v) : Tidy i w := fun temp f htemp ↦ by
  have hold := (hmine.temps temp f).mp htemp
  exact (hmine.entry temp f hold).trans (h temp f hold)

/-- No temporary file of a thread is left, unless the power went, or it could not be removed. -/
def Left (i : Tid) (w : World) : Prop :=
  (∃ left, .lost left ∈ w.log) ∨ .stuck i ∈ w.log ∨ Alive i (Tidy i) w

theorem Left.keeps (h : Left i v) (hkeep : Keeps i v w) : Left i w := by
  rcases h with ⟨left, hleft⟩ | hstuck | htidy
  · exact .inl ⟨left, hkeep.log.subset hleft⟩
  · exact .inr (.inl (hkeep.log.subset hstuck))
  · exact .inr (.inr (htidy.keeps hkeep .keeps))

section
variable {α : Type} {Q : α → World → Prop} {X : Failure → World → Prop} {P : World → Prop}

/-- The rule for one call. -/
theorem safe_call {c : Call} {k : c.Ret → Op α} (hP : ∀ u v, Keeps i u v → P u → P v)
    (hw : Sound format jobs init w ∧ P w)
    (hcall : ∀ v a r v', Sound format jobs init v → P v → i ∉ v.dead → i ∈ v.begun →
      c.effect i v a = some (r, v') →
      Leaves format jobs init i v v' ∧ (k r).Safe (shared format jobs init i) Q X v') :
    (invoke c >>= k).Safe (shared format jobs init i) Q X w := by
  intro v hrely r v' hr
  obtain ⟨hv, hkeep⟩ := hrely hw.1
  obtain ⟨-, a, h⟩ := hr
  rw [Call.exec] at h
  split_ifs at h with hdead
  have hP' := hP _ _ (hkeep.trans _ _ _ _ (keeps_begin v i i)) hw.2
  obtain ⟨hleaves, hk⟩ := hcall _ a r v' (sound_begin hv i) hP' hdead List.mem_cons_self h
  exact ⟨fun _ ↦ ⟨hleaves.sound, fun j hj ↦ (keeps_begin v i j).trans _ _ _ _ (hleaves.keeps j hj)⟩,
    hk⟩

/-- A call that changes nothing of files, whatever it answers. -/
theorem safe_idle {c : Call} {k : c.Ret → Op α} (hP : ∀ u v, Keeps i u v → P u → P v)
    (hw : Sound format jobs init w ∧ P w)
    (hc : ∀ v a r v', c.effect i v a = some (r, v') → ∃ modes, v' = { v with modes })
    (hk : ∀ r v, Sound format jobs init v → P v → (k r).Safe (shared format jobs init i) Q X v) :
    (invoke c >>= k).Safe (shared format jobs init i) Q X w := by
  refine safe_call hP hw fun v a r v' hv hPv _ _ h ↦ ?_
  obtain ⟨modes, rfl⟩ := hc v a r v' h
  have hleaves := leaves_modes (i := i) hv modes
  refine ⟨hleaves, hk r _ hleaves.sound (hP v _ ?_ hPv)⟩
  exact .of_files rfl List.suffix_rfl rfl rfl

end

/-! ## Filling the temporary file -/

section
variable {path text temp : String} {f mode : Nat}

theorem leaves_write (hv : Sound format jobs init v) {old : String}
    (h : Drafts i temp f old false v) (new : String) :
    Leaves format jobs init i v { v with volume := v.volume.write f new } ∧
      Drafts i temp f new false { v with volume := v.volume.write f new } := by
  constructor
  · refine leaves_of_file hv h.mine (fun n hn hmem ↦ absurd hmem (h.hidden n hn)) (fun _ _ ↦ rfl)
      (fun _ _ ↦ rfl) rfl (fun g hg ↦ ⟨Function.update_of_ne hg .., Function.update_of_ne hg ..⟩)
      fun hsynced ↦ ?_
    rw [h.isSynced] at hsynced
    cases hsynced
  · exact { h with
      data := Function.update_self ..
      isSynced := Function.update_self .. }

theorem leaves_sync (hv : Sound format jobs init v) (h : Drafts i temp f text false v) :
    Leaves format jobs init i v { v with volume := v.volume.sync f } ∧
      Drafts i temp f text true { v with volume := v.volume.sync f } := by
  constructor
  · refine leaves_of_file hv h.mine (fun n hn hmem ↦ absurd hmem (h.hidden n hn)) (fun _ _ ↦ rfl)
      (fun _ _ ↦ rfl) rfl (fun g hg ↦ ⟨rfl, Function.update_of_ne hg ..⟩) fun hsynced ↦ ?_
    rw [h.isSynced] at hsynced
    cases hsynced
  · exact { h with isSynced := Function.update_self .. }

theorem leaves_unlink (hv : Sound format jobs init v) (h : Owns i temp f v) :
    Leaves format jobs init i v { v with volume := v.volume.unlink temp } ∧
      Tidy i { v with volume := v.volume.unlink temp } := by
  constructor
  · exact leaves_of_file hv h.mine (fun _ _ _ ↦ ⟨rfl, rfl⟩) (fun n hn ↦ Function.update_of_ne hn ..)
      (fun n hn ↦ Function.update_of_ne hn ..) rfl (fun _ _ ↦ ⟨rfl, rfl⟩) fun hsynced ↦ ⟨hsynced, rfl⟩
  · intro temp' f' htemp
    obtain rfl := h.only temp' f' htemp
    exact Function.update_self ..

theorem tidy_replace (h : Owns i temp f v) : Tidy i (v.replace i temp path) := by
  intro temp' f' htemp
  obtain rfl := h.only temp' f' htemp
  exact Function.update_self ..

/-- What is known where `fill` returns, and where it raises. -/
abbrev Filled (format : Format δ) (jobs : Tid → Job) (init : Volume String String) (i : Tid)
    (path text temp : String) (f : Nat) (p : Op Unit) (w : World) : Prop :=
  p.Safe (shared format jobs init i)
    (fun _ w ↦ Sound format jobs init w ∧ .replaced i path (some text) ∈ w.log ∧ Alive i (Tidy i) w)
    (fun _ w ↦ Sound format jobs init w ∧ Alive i (Owns i temp f) w) w

theorem filled_replace (hfits : Fits format jobs init) (hjob : jobs i = .write path text mode)
    (hw : Sound format jobs init w) (h : Alive i (Drafts i temp f text true) w) :
    Filled format jobs init i path text temp f (invoke (.replace temp path) >>= orRaise) w := by
  refine safe_call (keeps_drafts i temp f text true) ⟨hw, h⟩ fun v a r v' hv hP hlive _ hr ↦ ?_
  have hdrafts := hP.resolve_left hlive
  have hreplace := leaves_replace hv hfits hjob hdrafts.mine hdrafts.entry hdrafts.data hdrafts.isSynced
  have hcontent : v.volume.content temp = some text := by
    rw [Volume.content, hdrafts.entry, Option.map_some, hdrafts.data]
  have hlog : .replaced i path (some text) ∈ (v.replace i temp path).log := by
    rw [← hcontent]
    exact List.mem_cons_of_mem _ List.mem_cons_self
  have howns : Owns i temp f (v.replace i temp path) := ⟨hdrafts.mine, hdrafts.only⟩
  rw [Call.effect, hdrafts.entry] at hr
  obtain ⟨rfl, rfl⟩ := Prod.mk.inj (Option.some.inj hr)
  cases hraises : a.raises with
  | none =>
    rw [if_pos (by rw [Answer.acts, hraises]; rfl), Answer.reply, hraises]
    exact ⟨hreplace, hreplace.sound, hlog, .inr (tidy_replace hdrafts.toOwns)⟩
  | some exc =>
    rw [Answer.reply, hraises]
    split_ifs
    · exact ⟨hreplace, hreplace.sound, .inr howns⟩
    · exact ⟨leaves_modes hv v.modes, hv, .inr hdrafts.toOwns⟩

theorem chmod_effect {a : Answer} {r : Except String Unit} {name : String} {mode : Nat}
    (h : (Call.chmod name mode).effect i v a = some (r, w)) : ∃ modes, w = { v with modes } := by
  rw [Call.effect] at h
  split at h
  · exact ⟨v.modes, (Prod.mk.inj (Option.some.inj h)).2.symm⟩
  · obtain ⟨-, rfl⟩ := Prod.mk.inj (Option.some.inj h)
    split_ifs
    · exact ⟨_, rfl⟩
    · exact ⟨v.modes, rfl⟩

theorem filled_chmod (hfits : Fits format jobs init) (hjob : jobs i = .write path text mode)
    (hw : Sound format jobs init w) (h : Alive i (Drafts i temp f text true) w) :
    Filled format jobs init i path text temp f (do
      orRaise (← invoke (.chmod temp mode))
      orRaise (← invoke (.replace temp path))) w := by
  refine safe_idle (keeps_drafts i temp f text true) ⟨hw, h⟩ (fun _ _ _ _ ↦ chmod_effect)
    fun r v hv hP ↦ ?_
  cases r with
  | error exc => exact ⟨hv, hP.imp_right fun h ↦ h.toOwns⟩
  | ok _ => exact filled_replace hfits hjob hv hP

theorem filled_fsync (hfits : Fits format jobs init) (hjob : jobs i = .write path text mode)
    (hw : Sound format jobs init w) (h : Alive i (Drafts i temp f text false) w) :
    Filled format jobs init i path text temp f (do
      orRaise (← invoke (.fsync f))
      orRaise (← invoke (.chmod temp mode))
      orRaise (← invoke (.replace temp path))) w := by
  refine safe_call (keeps_drafts i temp f text false) ⟨hw, h⟩ fun v a r v' hv hP hlive _ hr ↦ ?_
  rw [Call.effect] at hr
  split at hr
  · obtain ⟨rfl, rfl⟩ := Prod.mk.inj (Option.some.inj hr)
    exact ⟨leaves_modes hv v.modes, hv, .inr (hP.resolve_left hlive).toOwns⟩
  · obtain ⟨rfl, rfl⟩ := Prod.mk.inj (Option.some.inj hr)
    obtain ⟨hleaves, hdrafts⟩ := leaves_sync hv (hP.resolve_left hlive)
    exact ⟨hleaves, filled_chmod hfits hjob hleaves.sound (.inr hdrafts)⟩

theorem filled_fill (hfits : Fits format jobs init) (hjob : jobs i = .write path text mode)
    (hw : Sound format jobs init w) (h : Alive i (Drafts i temp f "" false) w) :
    Filled format jobs init i path text temp f (fill temp f path text mode) w := by
  refine safe_call (keeps_drafts i temp f "" false) ⟨hw, h⟩ fun v a r v' hv hP hlive _ hr ↦ ?_
  rw [Call.effect] at hr
  split at hr
  · obtain ⟨rfl, rfl⟩ := Prod.mk.inj (Option.some.inj hr)
    obtain ⟨hleaves, hdrafts⟩ := leaves_write hv (hP.resolve_left hlive) a.text
    exact ⟨hleaves, hleaves.sound, .inr hdrafts.toOwns⟩
  · obtain ⟨rfl, rfl⟩ := Prod.mk.inj (Option.some.inj hr)
    obtain ⟨hleaves, hdrafts⟩ := leaves_write hv (hP.resolve_left hlive) text
    exact ⟨hleaves, filled_fsync hfits hjob hleaves.sound (.inr hdrafts)⟩

end

/-! ## A writer -/

section
variable {path text : String} {mode : Nat}

/-- A thread that has made no temporary file. -/
def Unused (i : Tid) (w : World) : Prop := ∀ temp f, w.temps temp ≠ some (i, f)

theorem keeps_unused (i : Tid) (u v : World) (hkeep : Keeps i u v) (h : Alive i (Unused i) u) :
    Alive i (Unused i) v :=
  h.keeps hkeep fun hmine h temp f htemp ↦ h temp f ((hmine.temps temp f).mp htemp)

theorem left_of_tidy (h : Alive i (Tidy i) w) : Left i w := .inr (.inr h)

theorem left_of_unused (h : Alive i (Unused i) w) : Left i w :=
  left_of_tidy (h.imp_right fun h temp f htemp ↦ absurd htemp (h temp f))

/-- A name that was drawn is that of a temporary file. -/
theorem isTemp_drawn (name random : String) : isTemp s!".{name}.{random}.tmp" = true := by
  have htext : s!".{name}.{random}.tmp".toList =
      '.' :: (name.toList ++ '.' :: random.toList) ++ ['.', 't', 'm', 'p'] := by
    simp only [toString, String.toList_append, List.cons_append, List.append_assoc]
    rfl
  rw [isTemp, htext, Bool.and_eq_true, List.isPrefixOf_iff_prefix, List.isSuffixOf_iff_suffix]
  exact ⟨⟨_, rfl⟩, List.suffix_append _ _⟩

theorem drafts_mkstemp {temp : String} (hv : Sound format jobs init v) (hname : isTemp temp = true)
    (h : Unused i v) : Drafts i temp v.volume.next "" false (v.mkstemp i temp) := by
  refine ⟨⟨Function.update_self .., fun temp' f' htemp ↦ ?_⟩, Function.update_self .., fun n hn ↦ ?_,
    Function.update_self .., Function.update_self ..⟩
  · by_contra hne
    exact h temp' f' ((Function.update_of_ne hne ..).symm.trans htemp)
  · intro hmem
    change _ ∈ Function.update v.volume.held temp _ n at hmem
    rw [Function.update_of_ne (ne_of_isTemp hn hname)] at hmem
    exact lt_irrefl _ ((hv.settled n hn).old _ hmem)

theorem safe_syncDir {X : Failure → World → Prop} {P : World → Prop}
    (hP : ∀ u v, Keeps i u v → P u → P v) (hw : Sound format jobs init w) (h : P w) :
    (invoke .fsyncDir).Safe (shared format jobs init i) (fun _ ↦ P) X w := by
  intro v hrely _ v' hr
  obtain ⟨hv, hkeep⟩ := hrely hw
  obtain ⟨-, a, hr⟩ := hr
  rw [Call.exec] at hr
  split_ifs at hr
  obtain ⟨-, rfl⟩ := Prod.mk.inj (Option.some.inj hr)
  have hbegin := sound_begin hv i
  have hall (j : Tid) : Keeps j v { v with begun := i :: v.begun } := keeps_begin v i j
  split_ifs
  · -- a sync is nobody's own step
    have hleaves (k : Tid) := leaves_syncDir (i := k) hbegin
    have hkeeps (j : Tid) := (hall j).trans _ _ _ _ ((hleaves (j + 1)).keeps j (Nat.succ_ne_self j).symm)
    exact ⟨fun _ ↦ ⟨(hleaves i).sound, fun j _ ↦ hkeeps j⟩, hP v _ (hkeeps i) (hP w v hkeep h)⟩
  · exact ⟨fun _ ↦ ⟨hbegin, fun j _ ↦ hall j⟩, hP v _ (hall i) (hP w v hkeep h)⟩

/-- The removal of the temporary file, after which the failure is raised. -/
theorem safe_unlink {temp : String} {f : Nat} {x : Failure} {Q : Unit → World → Prop}
    (hw : Sound format jobs init w) (h : Alive i (Owns i temp f) w) :
    (do
      orRaise (← invoke (.unlink temp))
      .raise x : Op Unit).Safe (shared format jobs init i) Q (fun _ w ↦ Left i w) w := by
  refine safe_call (keeps_owns i temp f) ⟨hw, h⟩ fun v a r v' hv hP hlive _ hr ↦ ?_
  rw [Call.effect] at hr
  split at hr
  · obtain ⟨rfl, rfl⟩ := Prod.mk.inj (Option.some.inj hr)
    exact ⟨leaves_stuck hv, .inr (.inl List.mem_cons_self)⟩
  · obtain ⟨rfl, rfl⟩ := Prod.mk.inj (Option.some.inj hr)
    obtain ⟨hleaves, htidy⟩ := leaves_unlink hv (hP.resolve_left hlive)
    exact ⟨hleaves, left_of_tidy (.inr htidy)⟩

/-- What is known where a writer returns, and where it raises. -/
theorem writeTextAtomic_safe (hfits : Fits format jobs init) (hjob : jobs i = .write path text mode)
    (hw : Sound format jobs init w) (h : Alive i (Unused i) w) :
    (writeTextAtomic path text mode).Safe (shared format jobs init i)
      (fun _ w ↦ .replaced i path (some text) ∈ w.log ∧ Left i w) (fun _ w ↦ Left i w) w := by
  refine safe_idle (keeps_unused i) ⟨hw, h⟩ (fun v a r v' h ↦ ?_) fun r v hv hP ↦ ?_
  · exact ⟨v.modes, (Prod.mk.inj (Option.some.inj h)).2.symm⟩
  cases r with
  | error exc => exact left_of_unused hP
  | ok _ =>
    refine safe_call (keeps_unused i) ⟨hv, hP⟩ fun u a r u' hu hP hlive hi hr ↦ ?_
    rw [Call.effect] at hr
    split at hr
    · obtain ⟨rfl, rfl⟩ := Prod.mk.inj (Option.some.inj hr)
      exact ⟨leaves_modes hu u.modes, left_of_unused hP⟩
    · dsimp only at hr
      split_ifs at hr with hnew
      obtain ⟨rfl, rfl⟩ := Prod.mk.inj (Option.some.inj hr)
      have hname := isTemp_drawn path a.text
      have hleaves := leaves_mkstemp hu hname hnew.2 hi
      refine ⟨hleaves, ?_⟩
      have hdrafts := drafts_mkstemp hu hname (hP.resolve_left hlive)
      rw [orRaise, Prog.safe_bind, Prog.safe_ret]
      dsimp only
      rw [Prog.safe_bind, Prog.safe_attempt]
      refine (filled_fill hfits hjob hleaves.sound (.inr hdrafts)).mono ?_ ?_
      · rintro - t ⟨ht, hlog, htidy⟩
        exact safe_syncDir (P := fun w ↦ .replaced i path (some text) ∈ w.log ∧ Left i w)
          (fun u v hkeep h ↦ ⟨hkeep.log.subset h.1, h.2.keeps hkeep⟩) ht ⟨hlog, left_of_tidy htidy⟩
      · rintro exc t ⟨ht, howns⟩
        exact safe_unlink ht howns

end

/-! ## A reader -/

/-- What a reader finds was there when it opened the file, and nothing is moved aside. -/
theorem readStateFile_safe {path : String} {expect : List String}
    (hfits : Fits format jobs init) (hjob : jobs i = .read path expect)
    (hw : Sound format jobs init w) :
    (readStateFile format path expect).Safe (shared format jobs init i)
      (fun data w ↦ ∃ text, .opened i path text ∈ w.log ∧
        data = text.bind fun t ↦ (format.load t).toOption)
      (fun x _ ↦ ∀ p reason aside, x = .state p reason aside → aside = none) w := by
  have hpath := hfits.reads i path expect hjob
  refine safe_call (P := fun _ ↦ True) (fun _ _ _ h ↦ h) ⟨hw, trivial⟩ fun v a r v' hv _ _ _ hr ↦ ?_
  rw [Call.effect] at hr
  split at hr
  next exc =>
    obtain ⟨rfl, rfl⟩ := Prod.mk.inj (Option.some.inj hr)
    refine ⟨leaves_modes hv v.modes, fun p reason aside h ↦ ?_⟩
    cases h
    rfl
  obtain ⟨rfl, rfl⟩ := Prod.mk.inj (Option.some.inj hr)
  have hleaves := leaves_opened (i := i) hv path
  refine ⟨hleaves, ?_⟩
  have hsettled := hv.settled path hpath
  cases hentry : v.volume.entries path with
  | none =>
    refine ⟨none, ?_, rfl⟩
    rw [Volume.content, hentry]
    exact List.mem_cons_self
  | some f =>
    have hmem := hsettled.entry
    rw [hentry] at hmem
    obtain ⟨data, hload, hexpect⟩ := hv.good path f hpath hmem i expect hjob
    refine safe_call (P := fun w ↦ .opened i path (some (v.volume.data f)) ∈ w.log ∧
      w.volume.synced f = true ∧ w.volume.data f = v.volume.data f) ?_ ⟨hleaves.sound, ?_⟩
      fun u a r u' hu hP _ _ hr ↦ ?_
    · rintro u u' hkeep ⟨hopened, hsynced, hdata⟩
      obtain ⟨hsynced', hdata'⟩ := hkeep.frozen f hsynced
      exact ⟨hkeep.log.subset hopened, hsynced', hdata'.trans hdata⟩
    · refine ⟨?_, hsettled.synced f hmem, rfl⟩
      rw [Volume.content, hentry]
      exact List.mem_cons_self
    · obtain ⟨rfl, rfl⟩ := Prod.mk.inj (Option.some.inj hr)
      refine ⟨leaves_modes hu u.modes, ?_⟩
      obtain ⟨hopened, -, hdata⟩ := hP
      rw [Answer.reply]
      cases a.raises with
      | some exc =>
        intro p reason aside h
        cases h
        rfl
      | none =>
        dsimp only
        rw [hdata, hload]
        dsimp only
        rw [if_neg hexpect]
        refine ⟨_, hopened, ?_⟩
        rw [Option.bind_some, hload]
        rfl

/-! ## Every program -/

/-- What holds where a job has returned. -/
def Ended (format : Format δ) (i : Tid) (w : World) : Job → Outcome δ → Prop
  | .write path text _, _ => .replaced i path (some text) ∈ w.log ∧ Left i w
  | .read path _, .found data =>
    ∃ text, .opened i path text ∈ w.log ∧ data = text.bind fun t ↦ (format.load t).toOption
  | _, _ => True

/-- What holds where a job has raised. -/
def Failed (i : Tid) (w : World) : Job → Failure → Prop
  | .write .., _ => Left i w
  | .read .., .state _ _ aside => aside = none
  | _, _ => True

theorem Ended.keeps {job : Job} {outcome : Outcome δ} (h : Ended format i v job outcome)
    (hkeep : Keeps i v w) : Ended format i w job outcome := by
  match job, outcome with
  | .write .., _ => exact ⟨hkeep.log.subset h.1, h.2.keeps hkeep⟩
  | .read .., .found _ =>
    obtain ⟨text, hopened, hdata⟩ := h
    exact ⟨text, hkeep.log.subset hopened, hdata⟩
  | .read .., .written | .read .., .off | .powerOff, _ => trivial

theorem Failed.keeps {job : Job} {x : Failure} (h : Failed i v job x) (hkeep : Keeps i v w) :
    Failed i w job x := by
  match job, x with
  | .write .., _ => exact Left.keeps h hkeep
  | .read .., .state .. => exact h
  | .read .., .os _ | .powerOff, _ => trivial

theorem program_safe (hfits : Fits format jobs init) (hw : Sound format jobs init w)
    (hunused : Unused i w) :
    ((jobs i).program format).Safe (shared format jobs init i)
      (fun outcome w ↦ Ended format i w (jobs i) outcome) (fun x w ↦ Failed i w (jobs i) x) w := by
  cases hjob : jobs i with
  | write path text mode =>
    rw [Job.program, Prog.safe_bind]
    exact (writeTextAtomic_safe hfits hjob hw (.inr hunused)).mono (fun _ _ h ↦ h) fun _ _ h ↦ h
  | read path expect =>
    rw [Job.program, Prog.safe_bind]
    refine (readStateFile_safe hfits hjob hw).mono (fun _ _ h ↦ h) fun x u h ↦ ?_
    match x with
    | .os _ => trivial
    | .state p reason aside => exact h p reason aside rfl
  | powerOff =>
    refine safe_call (P := fun _ ↦ True) (fun _ _ _ h ↦ h) ⟨hw, trivial⟩ fun v a r v' hv _ _ _ hr ↦ ?_
    obtain ⟨-, rfl⟩ := Prod.mk.inj (Option.some.inj hr)
    exact ⟨leaves_lose hv a.choice a.garbage, trivial⟩

end

/-! ## Every run -/

section
variable {format : Format δ} {jobs : Tid → Job} {init : Volume String String}
  {s : Threads Tid Call.Ret Failure (Outcome δ) World}

theorem sound_init (hclean : Clean init) (hfits : Fits format jobs init) :
    Sound format jobs init { volume := init } := by
  have hentry {n : String} {f : Nat} (hn : isTemp n = false) (h : some f ∈ init.held n) :
      init.entries n = some f := by
    rw [hclean.held n hn] at h
    exact (List.mem_singleton.mp h).symm
  constructor
  · intro n hn
    constructor
    · rfl
    · rw [hclean.held n hn]
      exact List.mem_singleton_self _
    · intro f hf
      rw [hclean.held n hn] at hf
      rw [List.mem_singleton.mp hf]
      exact Set.mem_singleton _
    · exact fun f hf ↦ hclean.synced n f hn (hentry hn hf)
    · exact fun f hf ↦ hclean.young f (hclean.synced n f hn (hentry hn hf))
  · exact fun _ _ ↦ trivial
  · intro n f hn hf
    refine hfits.init n _ hn ?_
    rw [Volume.content, hentry hn hf]
    rfl
  · intro temp j f h
    cases h
  · intro temp temp' j j' f h
    cases h
  · intro j target text h
    cases h
  · intro j source h
    cases h
  · intro j h
    cases h
  · exact hclean.young

/-- What holds in every reachable state: of the files, and of the programs that have ended. -/
theorem sound_of_reachable (hclean : Clean init) (hfits : Fits format jobs init)
    (h : (system format jobs init).Reachable Guard.free s) :
    Sound format jobs init s.world ∧
      (∀ i outcome, s.pool i = .ret outcome → Ended format i s.world (jobs i) outcome) ∧
      ∀ i x, s.pool i = .raise x → Failed i s.world (jobs i) x := by
  obtain ⟨s₀, ⟨hpool, hworld⟩, hsteps⟩ := h
  have hsound : Sound format jobs init s₀.world := by
    rw [hworld]
    exact sound_init hclean hfits
  have hsafe : ∀ i, (s₀.pool i).Safe (shared format jobs init i)
      (fun outcome w ↦ Ended format i w (jobs i) outcome) (fun x w ↦ Failed i w (jobs i) x)
      s₀.world := by
    intro i
    rw [hpool]
    refine program_safe hfits hsound fun temp f htemp ↦ ?_
    rw [hworld] at htemp
    cases htemp
  have hfree := hsteps.mono (H := Threads.stepGuard fun _ _ _ ↦ True) fun s a _ ↦ by
    unfold Threads.stepGuard
    split <;> trivial
  have hcompatible := compatible_shared format jobs init
  refine ⟨(Threads.Poised.sharing_steps hcompatible hfree hsound hsafe).2, ?_⟩
  exact Threads.Poised.sharing_ended (Q := fun i outcome w ↦ Ended format i w (jobs i) outcome)
    (X := fun i x w ↦ Failed i w (jobs i) x) (fun _ _ _ _ hkeep h ↦ h.keeps hkeep)
    (fun _ _ _ _ hkeep h ↦ h.keeps hkeep) hcompatible hfree hsound hsafe

theorem stored_of_mem {w : World} (hw : Sound format jobs init w) {n : String} (hn : isTemp n = false)
    {x : Option String} (h : .stored x ∈ acts n w.log) :
    ∃ i text mode, jobs i = .write n text mode ∧ x = some text := by
  obtain ⟨e, he, hact⟩ := List.mem_filterMap.mp h
  cases e with
  | replaced j target text =>
    rw [Event.act] at hact
    split_ifs at hact with htarget
    obtain ⟨t, mode, hjob, rfl⟩ := hw.replaced j target text he
    exact ⟨j, t, mode, htarget ▸ hjob, (Act.stored.inj (Option.some.inj hact)).symm⟩
  | movedFrom j source =>
    rw [Event.act] at hact
    split_ifs at hact with hsource
    have htemp := hw.moved j source he
    rw [hsource, hn] at htemp
    cases htemp
  | opened j name text =>
    rw [Event.act] at hact
    split_ifs at hact
    cases hact
  | synced | lost | stuck => cases hact

/-- **State files are registers.** In every interleaving of writers and readers of the files of a
directory, whatever call fails or is interrupted and whenever the power goes: each file is a
register, in which only whole texts of writers are stored, which a loss of power leaves as it was at
some moment since the directory was synced; a writer that returns has stored its text; a reader
that returns makes of the text that was there when it opened the file what the format makes of it;
and no reader moves anything aside. -/
theorem files_are_registers (hclean : Clean init) (hfits : Fits format jobs init)
    (h : (system format jobs init).Reachable Guard.free s) (n : String) (hn : isTemp n = false) :
    (register init n).Lawful (acts n s.world.log) ∧
      s.world.volume.content n = ((register init n).after (acts n s.world.log)).now ∧
      (∀ x, .stored x ∈ acts n s.world.log →
        ∃ i text mode, jobs i = .write n text mode ∧ x = some text) ∧
      (∀ i text mode outcome, jobs i = .write n text mode → s.pool i = .ret outcome →
        .stored (some text) ∈ acts n s.world.log) ∧
      (∀ i expect data, jobs i = .read n expect → s.pool i = .ret (.found data) →
        ∃ text, .loaded text ∈ acts n s.world.log ∧
          data = text.bind fun t ↦ (format.load t).toOption) ∧
      ∀ i expect path reason aside, jobs i = .read n expect →
        s.pool i = .raise (.state path reason aside) → aside = none := by
  obtain ⟨hs, hended, hfailed⟩ := sound_of_reachable hclean hfits h
  refine ⟨hs.lawful n hn, (hs.settled n hn).now.symm, fun x hx ↦ stored_of_mem hs hn hx,
    fun i text mode outcome hjob hpool ↦ ?_, fun i expect data hjob hpool ↦ ?_,
    fun i expect path reason aside hjob hpool ↦ ?_⟩
  · have hwritten := hended i outcome hpool
    rw [hjob] at hwritten
    exact List.mem_filterMap.mpr ⟨_, hwritten.1, if_pos rfl⟩
  · have hread := hended i _ hpool
    rw [hjob] at hread
    obtain ⟨text, hopened, hdata⟩ := hread
    exact ⟨text, List.mem_filterMap.mpr ⟨_, hopened, if_pos rfl⟩, hdata⟩
  · have hraised := hfailed i _ hpool
    rw [hjob] at hraised
    exact hraised

/-- **A state file is not forgotten.** A file that was there when the directory was synced is there
whenever it is opened later, also after the power went. -/
theorem never_missing (hclean : Clean init) (hfits : Fits format jobs init)
    (h : (system format jobs init).Reachable Guard.free s) {n : String} (hn : isTemp n = false)
    {later earlier : List Event} (hlog : s.world.log = later ++ .synced :: earlier)
    (hthere : ((register init n).after (acts n earlier)).now.isSome) (i : Tid) :
    .opened i n none ∉ later := by
  obtain ⟨hs, -⟩ := sound_of_reachable hclean hfits h
  obtain ⟨text, htext⟩ := Option.isSome_iff_exists.mp hthere
  have hacts : acts n s.world.log = acts n later ++ .synced :: acts n earlier := by
    rw [hlog, acts, List.filterMap_append, List.filterMap_cons]
    rfl
  have hlawful := hs.lawful n hn
  rw [hacts] at hlawful
  intro hopened
  refine Register.not_mem_loaded_none hlawful htext (fun y hy ↦ ?_)
    (List.mem_filterMap.mpr ⟨_, hopened, if_pos rfl⟩)
  obtain ⟨_, _, _, -, rfl⟩ := stored_of_mem hs hn (hacts ▸ List.mem_append_left _ hy)
  rfl

end

/-! ## Written, and read after the power went -/

/-- A format with one text. -/
private def lists : Format Unit where
  load text := if text = "[]" then .ok () else .error "Expecting value"
  typeName _ := "list"

private def powerCut : Tid → Job
  | 0 => .write "a.json" "[]" 0o600
  | 1 => .read "a.json" ["list"]
  | _ => .powerOff

private def blank : Volume String String := { data := fun _ ↦ "" }

private theorem clean_blank : Clean blank :=
  ⟨fun _ _ ↦ rfl, fun _ _ _ h ↦ (nomatch h), fun _ h ↦ (nomatch h)⟩

private theorem fits_blank : Fits lists powerCut blank := by
  have hgood (path : String) : Good lists powerCut path "[]" := by
    intro j expect hjob
    refine ⟨(), rfl, ?_⟩
    match j with
    | 0 => cases hjob
    | 1 =>
      cases hjob
      decide
    | _ + 2 => cases hjob
  refine ⟨fun i path text mode hjob ↦ ?_, fun i path expect hjob ↦ ?_, fun _ _ _ h ↦ (nomatch h),
    fun i path text mode hjob ↦ ?_⟩
  · match i with
    | 0 =>
      cases hjob
      decide
    | 1 => cases hjob
    | _ + 2 => cases hjob
  · match i with
    | 0 => cases hjob
    | 1 =>
      cases hjob
      decide
    | _ + 2 => cases hjob
  · match i with
    | 0 =>
      cases hjob
      exact hgood _
    | 1 => cases hjob
    | _ + 2 => cases hjob

/-- The writer to its end, the power, and the reader. -/
private def cutOnce : List (Tid × Answer) :=
  ([0, 0, 0, 0, 0, 0, 0, 2, 1, 1] : List Tid).map fun i ↦ (i, { text := "x" })

private def hasRead (s : Threads Tid Call.Ret Failure (Outcome Unit) World) : Bool :=
  match s.pool 0, s.pool 1 with
  | .ret .written, .ret (.found (some ())) => true
  | _, _ => false

private theorem ret_of_hasRead {s : Threads Tid Call.Ret Failure (Outcome Unit) World}
    (h : hasRead s = true) : s.pool 0 = .ret .written ∧ s.pool 1 = .ret (.found (some ())) := by
  unfold hasRead at h
  split at h
  next h₀ h₁ => exact ⟨h₀, h₁⟩
  · cases h

private theorem reachable_cutOnce : ∃ s, (system lists powerCut blank).Reachable Guard.free s ∧
    s.pool 0 = .ret .written ∧ s.pool 1 = .ret (.found (some ())) := by
  obtain ⟨s, hs, hread⟩ := (Option.any_eq_true _ _).mp (show ((system lists powerCut blank).run
    ⟨fun i ↦ (powerCut i).program lists, { volume := blank }⟩ cutOnce).any hasRead = true
    by decide +kernel)
  exact ⟨s, ⟨_, ⟨rfl, rfl⟩, System.steps_of_run hs⟩, ret_of_hasRead hread⟩

theorem files_are_registers_cut : ∃ s, (system lists powerCut blank).Reachable Guard.free s ∧
    s.pool 1 = .ret (.found (some ())) ∧ .stored (some "[]") ∈ acts "a.json" s.world.log := by
  obtain ⟨s, hs, hwritten, hread⟩ := reachable_cutOnce
  obtain ⟨-, -, -, hstored, -⟩ :=
    files_are_registers clean_blank fits_blank hs "a.json" (by decide)
  exact ⟨s, hs, hread, hstored 0 "[]" 0o600 .written rfl hwritten⟩

private def hasKept (s : Threads Tid Call.Ret Failure (Outcome Unit) World) : Bool :=
  match s.world.log with
  | _ :: _ :: .synced :: earlier =>
    ((register blank "a.json").after (acts "a.json" earlier)).now.isSome
  | _ => false

theorem never_missing_cut : ∃ s : Threads Tid Call.Ret Failure (Outcome Unit) World,
    ∃ e e' earlier, s.world.log = [e, e'] ++ .synced :: earlier ∧
      .opened 1 "a.json" none ∉ [e, e'] := by
  obtain ⟨s, hs, hkept⟩ := (Option.any_eq_true _ _).mp (show ((system lists powerCut blank).run
    ⟨fun i ↦ (powerCut i).program lists, { volume := blank }⟩ cutOnce).any hasKept = true
    by decide +kernel)
  unfold hasKept at hkept
  split at hkept
  next e e' earlier hlog =>
    exact ⟨s, e, e', earlier, hlog, never_missing clean_blank fits_blank
      ⟨_, ⟨rfl, rfl⟩, System.steps_of_run hs⟩ (by decide) hlog hkept 1⟩
  · cases hkept

end SparkPulse.AtomicJson
