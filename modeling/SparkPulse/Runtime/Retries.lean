import SparkPulse.Program.Solo
import SparkPulse.Runtime.Frame
import SparkPulse.Runtime.Pull

/-!
# Retries and cancellations

`_pull_with_retries` among those who may cancel it. Between two of its calls, and while an attempt
is under way, the rest of the program does what it likes, but for one thing: a cancellation stays
visible once it is. The wait before a retry is such a time between two calls.

The loop looks for a cancellation after each attempt that failed, at the flag of the pull first and
then at the record, and at no other time. One that comes up between that look and the next attempt
is overlooked, and so is one that is there before the first attempt; the attempt is made all the
same. The retries are lawful exactly when no cancellation is overlooked.

## Main definitions

* `SparkPulse.Runtime.Retrying`: the world of a pull, and what has come of its attempts.
* `SparkPulse.Runtime.Retrying.Lawful`: what is asked of the retries when they are over.

## Main results

* `SparkPulse.Runtime.Retrying.safe_pullWithRetries`: what the loop makes of any answers.
* `SparkPulse.Runtime.lawful_iff_not_overlooked`: every run ends, and is lawful exactly when no cancellation was
  overlooked.
-/

namespace SparkPulse.Runtime

open Program Prog Transition

/-! ## Cancellations -/

namespace World

/-- What `_is_torn_down` asks: the record is gone, or stopped. -/
def tornDown (w : World) (id : String) : Bool :=
  match w.store.get id with
  | none => true
  | some record => record.status = .stopped

/-- The flag of a pull: it is to stop. -/
def flagged (w : World) (id : String) : Bool := w.pulls id = some true

/-- A cancellation of the pull is visible. -/
def cancelled (w : World) (id : String) : Bool := w.flagged id || w.tornDown id

/-- A cancellation that was visible still is: nobody but the pull itself takes its flag away, and
nobody brings a record back that was torn down. -/
def Upholds (id : String) (v w : World) : Prop :=
  (v.flagged id = true → w.flagged id = true) ∧ (v.tornDown id = true → w.tornDown id = true)

instance (id : String) (v w : World) : Decidable (v.Upholds id w) :=
  inferInstanceAs (Decidable (_ ∧ _))

end World

/-- What the loop has looked at, and will not look at again before its next attempt. -/
inductive Looked
  | atNothing
  | atFlag
  | atAll
  deriving DecidableEq, Repr

namespace Looked

/-- A cancellation is visible that the loop will not see before its next attempt. -/
def misses (id : String) (w : World) : Looked → Bool
  | atNothing => false
  | atFlag => w.flagged id && !w.tornDown id
  | atAll => w.cancelled id

/-- Where the loop stands after a call. When it has seen a cancellation no attempt follows. -/
def after (id : String) (w : World) (looked : Looked) : Call → Looked
  | .pullCancelRequested _ => if w.flagged id then atNothing else atFlag
  | .rows => if w.tornDown id then atNothing else atAll
  | _ => looked

end Looked

/-! ## Attempts and their surroundings -/

/-- The world of a pull, and what has come of its attempts. -/
structure Retrying where
  world : World
  /-- How the attempts came out, latest first. -/
  outcomes : List (Except Exn Unit) := []
  looked : Looked := .atAll
  /-- A cancellation came up that the loop was not going to see before its next attempt. -/
  overlooked : Bool
  /-- An attempt was begun when a cancellation was visible. -/
  late : Bool := false
  /-- An attempt failed when a cancellation was visible, or because of one. -/
  struck : Bool := false

/-- What the others make of the world until a call is answered, and the answer. An attempt takes
its time, and begins in a world of its own. -/
structure Turn where
  begins : World
  world : World
  answer : Answer

namespace Retrying

/-- Before the first attempt. -/
def before (id : String) (w : World) : Retrying where
  world := w
  overlooked := w.cancelled id

/-- The others have led to a world. -/
def meet (s : Retrying) (id : String) (w : World) : Retrying :=
  { s with
    world := w
    overlooked := s.overlooked ||
      (decide (s.outcomes.length < pullAttempts) && s.looked.misses id w) }

/-- An attempt that came out like this failed when a cancellation was visible, or because of one. -/
def strikes (id : String) (w : World) : Except Exn Unit → Bool
  | .ok _ => false
  | .error x => w.cancelled id || x.isPullCancelled

/-- An attempt that began in one world is over in another. -/
def tried (s : Retrying) (id : String) (begins w : World) (outcome : Except Exn Unit) : Retrying :=
  { s with
    world := w
    outcomes := outcome :: s.outcomes
    looked := .atNothing
    late := s.late || begins.cancelled id
    struck := s.struck || strikes id w outcome }

/-- Any other call has been answered. -/
def called (s : Retrying) (id : String) (e : Call) (w : World) : Retrying :=
  { s with world := w, looked := s.looked.after id w e }

/-- One call of the loop, among the others. -/
def exec (env : Env) (id : String) (s : Retrying) (e : Call) (t : Turn) :
    Option (e.Ret × Retrying) :=
  match e with
  | .node phase address (.pullImage ref relay) =>
    if s.world.Upholds id t.begins ∧ t.begins.Upholds id t.world then
      ((Call.node phase address (.pullImage ref relay)).exec env 0 t.world t.answer).map fun r ↦
        (r.1, (s.meet id t.begins).tried id t.begins r.2 r.1)
    else none
  | e =>
    if s.world.Upholds id t.world then
      (e.exec env 0 t.world t.answer).map fun r ↦ (r.1, (s.meet id t.world).called id e r.2)
    else none

/-- Every attempt was made and failed, and the error that is raised carries that of the last. -/
def Exhausted (s : Retrying) (x : Exn) : Prop :=
  s.outcomes.length = pullAttempts ∧ ∃ last message, s.outcomes.head? = some (.error last) ∧
    x = .native message ∧ last.text.toList <:+: message.toList

/-- What is asked of the retries that have come to this result. -/
structure Lawful (s : Retrying) (id : String) (result : Except Exn Unit) : Prop where
  bounded : s.outcomes.length ≤ pullAttempts
  /-- Every attempt but the last failed. -/
  retried : ∀ outcome ∈ s.outcomes.tail, ∃ x, outcome = .error x
  /-- No attempt was begun when a cancellation was visible. -/
  unstarted : s.late = false
  /-- The cancellation that an attempt failed under is raised. -/
  cancelled : s.struck = true → ∃ text, result = .error (.pullCancelled text)
  returned : result = .ok () → s.outcomes.head? = some (.ok ())
  raised : ∀ x, result = .error x →
    x.isPullCancelled = true ∧ (s.struck = true ∨ s.world.cancelled id = true) ∨ s.Exhausted x

end Retrying

/-- The retries of one pull, from one world. -/
def pulling (env : Env) (id address ref location : String) (w : World) :
    System (Threads Unit Call.Ret Exn Unit Retrying) (Unit × Turn) :=
  Threads.solo (Retrying.exec env id) (pullWithRetries env id address ref location pullAttempts)
    (Retrying.before id w)

/-! ## One call -/

namespace World

variable {id : String} {u v w : World}

theorem Upholds.refl (w : World) : w.Upholds id w := ⟨fun h ↦ h, fun h ↦ h⟩

theorem Upholds.trans (huv : u.Upholds id v) (hvw : v.Upholds id w) : u.Upholds id w :=
  ⟨fun h ↦ hvw.1 (huv.1 h), fun h ↦ hvw.2 (huv.2 h)⟩

theorem Upholds.cancelled (h : v.Upholds id w) (hv : v.cancelled id = true) :
    w.cancelled id = true := by
  rw [World.cancelled, Bool.or_eq_true] at hv ⊢
  exact hv.imp h.1 h.2

/-- The same cancellations are visible in both. -/
def Alike (id : String) (v w : World) : Prop :=
  w.flagged id = v.flagged id ∧ w.tornDown id = v.tornDown id

theorem alike_of_eq (hpulls : w.pulls = v.pulls) (hstore : w.store = v.store) : v.Alike id w := by
  constructor
  · rw [flagged, flagged, hpulls]
  · rw [tornDown, tornDown, hstore]

theorem Upholds.alike (huv : u.Upholds id v) (hvw : v.Alike id w) : u.Upholds id w :=
  ⟨fun h ↦ hvw.1 ▸ huv.1 h, fun h ↦ hvw.2 ▸ huv.2 h⟩

end World

/-- The calls of the loop that leave the cancellations as they are, and are no attempts. -/
def Calm : Call → Prop
  | .rows | .pullCancelRequested _ | .publish .. | .bytesTransferred => True
  | .updateRow _ p => p.status = none
  | _ => False

namespace Call

variable {env : Env} {id : String} {e : Call} {w w' : World} {a : Answer}

theorem tornDown_update {id' : String} {p : Patch} (hp : p.status = none)
    (hstore : w'.store = w.store.update id' p) : w'.tornDown id = w.tornDown id := by
  have hget : w'.store.get id = (w.store.get id).map
      fun r ↦ if id = id' then p.apply r else r := by
    rw [hstore, Store.get_update]
  rw [World.tornDown, World.tornDown, hget]
  rcases w.store.get id with _ | record
  · rfl
  · rw [Option.map_some]
    split_ifs
    · simp only [Patch.apply, hp, Option.getD_none]
    · rfl

theorem alike_of_exec {r : e.Ret} (he : Calm e) (h : e.exec env 0 w a = some (r, w')) :
    w.Alike id w' := by
  rcases e with _ | _ | ⟨id', p⟩ | _ | _ | _ | _ | _ | _ | _ | _ | _ | _ | _ | _ | _ | _ | _ | _ |
    _ | _ | _ | _ | _
  case rows | pullCancelRequested | publish | bytesTransferred =>
    obtain ⟨-, rfl⟩ := Prod.mk.inj (Option.some.inj h)
    exact World.alike_of_eq rfl rfl
  case updateRow =>
    obtain ⟨-, rfl⟩ := Prod.mk.inj (Option.some.inj h)
    exact ⟨rfl, tornDown_update he rfl⟩
  all_goals exact he.elim

end Call

namespace Retrying

variable {env : Env} {id : String} {s s' : Retrying} {e : Call} {t : Turn}

/-- A call other than an attempt has been answered, and led here. -/
def Went (id : String) (s : Retrying) (e : Call) (s' : Retrying) : Prop :=
  s.world.Upholds id s'.world ∧ s' = (s.meet id s'.world).called id e s'.world

theorem misses_alike {v w : World} (h : v.Alike id w) (looked : Looked) :
    looked.misses id w = looked.misses id v := by
  cases looked <;> simp only [Looked.misses, World.cancelled, h.1, h.2]

theorem after_alike {v w : World} (h : v.Alike id w) (looked : Looked) :
    looked.after id w e = looked.after id v e := by
  unfold Looked.after
  rw [h.1, h.2]

theorem exec_of_calm (he : Calm e) : s.exec env id e t =
    if s.world.Upholds id t.world then
      (e.exec env 0 t.world t.answer).map fun r ↦ (r.1, (s.meet id t.world).called id e r.2)
    else none := by
  rcases e with _ | _ | _ | _ | _ | _ | _ | _ | _ | _ | _ | _ | _ | _ | _ | _ | _ | _ | _ | _ |
    _ | _ | _ | _
  case node => exact he.elim
  all_goals rfl

theorem exec_pullImage {phase : Phase} {address ref : String} {relay : Option String} :
    s.exec env id (.node phase address (.pullImage ref relay)) t =
      if s.world.Upholds id t.begins ∧ t.begins.Upholds id t.world then
        ((Call.node phase address (.pullImage ref relay)).exec env 0 t.world t.answer).map fun r ↦
          (r.1, (s.meet id t.begins).tried id t.begins r.2 r.1)
      else none := rfl

/-- The one thing an answer to such a call can be. -/
theorem went_of_exec {r : e.Ret} (he : Calm e) (h : s.exec env id e t = some (r, s')) :
    s.Went id e s' ∧ ∃ w, e.exec env 0 w t.answer = some (r, s'.world) := by
  rw [exec_of_calm he] at h
  split_ifs at h with hup
  obtain ⟨⟨r', w'⟩, hr, heq⟩ := Option.map_eq_some_iff.mp h
  obtain ⟨rfl, rfl⟩ := Prod.mk.inj heq
  have halike : t.world.Alike id w' := Call.alike_of_exec he hr
  refine ⟨⟨hup.alike halike, ?_⟩, t.world, hr⟩
  simp only [called, meet, misses_alike halike, after_alike halike]

/-- The one thing an attempt can come to. -/
theorem tried_of_exec {phase : Phase} {address ref : String} {relay : Option String}
    {r : Except Exn Unit}
    (h : s.exec env id (.node phase address (.pullImage ref relay)) t = some (r, s')) :
    s.world.Upholds id t.begins ∧ t.begins.Upholds id s'.world ∧
      s' = (s.meet id t.begins).tried id t.begins s'.world r := by
  rw [exec_pullImage] at h
  split_ifs at h with hup
  obtain ⟨⟨r', w'⟩, hr, heq⟩ := Option.map_eq_some_iff.mp h
  obtain ⟨rfl, rfl⟩ := Prod.mk.inj heq
  have hquiet := Call.quiet_node hr
  exact ⟨hup.1, hup.2.alike (World.alike_of_eq hquiet.pulls hquiet.store), rfl⟩

end Retrying

/-! ## Looking for a cancellation -/

/-- The setting of the loop: no call leaves more attempts made than there are. -/
abbrev amongOthers (env : Env) (id : String) : Setting Call.Ret Retrying :=
  Threads.solitude (Retrying.exec env id) fun _ s ↦ s.outcomes.length ≤ pullAttempts

namespace Retrying

variable {env : Env} {id : String} {s s' s'' : Retrying} {e : Call}

theorem safe_calm {Q : e.Ret → Retrying → Prop} {X : Exn → Retrying → Prop} (he : Calm e)
    (hs : s.outcomes.length ≤ pullAttempts)
    (h : ∀ r s', s.Went id e s' → (∃ w a, e.exec env 0 w a = some (r, s'.world)) → Q r s') :
    (invoke e).Safe (amongOthers env id) Q X s := by
  rw [safe_call]
  rintro _ rfl r s' ⟨t, ht⟩
  obtain ⟨hwent, w, hw⟩ := went_of_exec he ht
  refine ⟨?_, h r s' hwent ⟨w, t.answer, hw⟩⟩
  rw [hwent.2]
  exact hs

/-- Since the loop stands where it does, nothing has come of attempts, and what it does not look at
was recorded. -/
structure Waits (id : String) (s s' : Retrying) : Prop where
  upholds : s.world.Upholds id s'.world
  outcomes : s'.outcomes = s.outcomes
  late : s'.late = s.late
  struck : s'.struck = s.struck
  looked : s'.looked = s.looked
  overlooked : s'.overlooked = (s.overlooked ||
    (decide (s.outcomes.length < pullAttempts) && s.looked.misses id s'.world))

/-- What the loop misses it goes on missing. -/
theorem misses_upholds {v w : World} {looked : Looked} (hlooked : looked ≠ .atFlag)
    (h : v.Upholds id w) (hv : looked.misses id v = true) : looked.misses id w = true := by
  rcases looked with _ | _ | _
  · exact hv
  · exact absurd rfl hlooked
  · exact h.cancelled hv

theorem Went.waits (h : s.Went id e s') (hsame : s'.looked = s.looked) : s.Waits id s' := by
  obtain ⟨hup, heq⟩ := h
  refine ⟨hup, ?_, ?_, ?_, hsame, ?_⟩
  all_goals
    rw [heq]
    rfl

theorem Waits.trans (h : s.Waits id s') (hlooked : s.looked ≠ .atFlag) (h' : s'.Waits id s'') :
    s.Waits id s'' := by
  refine ⟨h.upholds.trans h'.upholds, h'.outcomes.trans h.outcomes, h'.late.trans h.late,
    h'.struck.trans h.struck, h'.looked.trans h.looked, ?_⟩
  have hmono := misses_upholds hlooked h'.upholds
  rw [h'.overlooked, h.overlooked, h.outcomes, h.looked]
  cases hmiss : s.looked.misses id s'.world
  · rw [Bool.and_false, Bool.or_false]
  · rw [hmono hmiss, Bool.or_assoc, Bool.or_self]

theorem safe_repairLoaded (hs : s.outcomes.length ≤ pullAttempts) (hwaits : s.Waits id s)
    (hlooked : s.looked ≠ .atFlag) (rows : List Record) :
    (repairLoaded env rows).Safe (amongOthers env id)
      (fun records s' ↦ records = rows.map (Store.redacted env.redact) ∧ s.Waits id s')
      (fun _ _ ↦ False) s := by
  have huses : (repairLoaded env rows).Uses fun e ↦
      ∃ id command, e = .updateRow id { launchCommand := some command } :=
    repairLoaded_uses_of (fun id command ↦ ⟨id, command, rfl⟩) rows
  have hsafe : (repairLoaded env rows).Safe (amongOthers env id) (fun _ s' ↦ s.Waits id s')
      (fun _ s' ↦ s.Waits id s') s := by
    refine huses.safe (fun v w hv hvw ↦ hvw ▸ hv) (fun v e r w he hv ↦ ?_) hwaits
    rintro ⟨t, ht⟩
    obtain ⟨id', command, rfl⟩ := he
    obtain ⟨hwent, -⟩ := went_of_exec (e := .updateRow id' { launchCommand := some command }) rfl ht
    have hsame : w.looked = v.looked := by
      rw [hwent.2]
      rfl
    have hw := hv.trans hlooked (hwent.waits hsame)
    have hlength : w.outcomes.length ≤ pullAttempts := hw.outcomes ▸ hs
    exact ⟨hlength, hw⟩
  have hraises : (repairLoaded env rows).Raises fun _ ↦ False := repairLoaded_raises _
  exact ((repairLoaded_yields rows).safe (hraises.safe hsafe)).mono (fun _ _ h ↦ h)
    fun _ _ h ↦ h.1

/-- What the loop has learnt when it has looked for a signal. -/
structure Tested (id : String) (signal : World → Bool) (s : Retrying) (found : Bool)
    (s' : Retrying) : Prop where
  upholds : s.world.Upholds id s'.world
  outcomes : s'.outcomes = s.outcomes
  late : s'.late = s.late
  struck : s'.struck = s.struck
  seen : found = true → s'.world.cancelled id = true ∧ s'.overlooked = s.overlooked
  unseen : found = false → signal s.world = false ∧ s'.looked = .atAll ∧
    s'.overlooked = (s.overlooked ||
      (decide (s.outcomes.length < pullAttempts) && s'.world.cancelled id))

/-- The status of a record is not its command line. -/
theorem status_redacted (redact : String → Option String) (r : Record) :
    (Store.redacted redact r).status = r.status := by
  unfold Store.redacted
  split <;> rfl

theorem cancelled_of_tornDown {w : World} (h : w.tornDown id = true) : w.cancelled id = true := by
  rw [World.cancelled, h, Bool.or_true]

/-- Reading the record, when the flag has been looked at. -/
theorem safe_isTornDown (hs : s.outcomes.length ≤ pullAttempts) (hlooked : s.looked = .atFlag) :
    (isTornDown env id).Safe (amongOthers env id) (s.Tested id fun w ↦ w.tornDown id)
      (fun _ _ ↦ False) s := by
  rw [isTornDown, getDeployment, loadRecords, safe_bind, safe_bind, safe_bind]
  refine safe_calm trivial hs fun rows s₁ hwent hrows ↦ ?_
  obtain ⟨w, a, hexec⟩ := hrows
  have hstore : rows = s₁.world.store.rows := by
    obtain ⟨hrows, hworld⟩ := Prod.mk.inj (Option.some.inj hexec)
    rw [← hrows, ← hworld, World.log_store]
  obtain ⟨hup, heq⟩ := hwent
  have houtcomes : s₁.outcomes = s.outcomes := by rw [heq]; rfl
  have hlate : s₁.late = s.late := by rw [heq]; rfl
  have hstruck : s₁.struck = s.struck := by rw [heq]; rfl
  have hstands : s₁.looked = if s₁.world.tornDown id then .atNothing else .atAll := by
    rw [heq]
    rfl
  have hmissed : s₁.overlooked = (s.overlooked || (decide (s.outcomes.length < pullAttempts) &&
      (s₁.world.flagged id && !s₁.world.tornDown id))) := by
    rw [heq]
    simp only [called, meet, hlooked, Looked.misses]
  have hlength : s₁.outcomes.length ≤ pullAttempts := houtcomes ▸ hs
  have hwaits : s₁.Waits id s₁ ∧ s₁.looked ≠ .atFlag := by
    refine ⟨⟨.refl _, rfl, rfl, rfl, rfl, ?_⟩, ?_⟩
    · cases htorn : s₁.world.tornDown id
      · rw [hstands, htorn, if_neg Bool.false_ne_true, Looked.misses, World.cancelled, htorn,
          Bool.or_false, hmissed, htorn, Bool.not_false, Bool.and_true, houtcomes, Bool.or_assoc,
          Bool.or_self]
      · rw [hstands, htorn, if_pos rfl, Looked.misses, Bool.and_false, Bool.or_false]
    · rw [hstands]
      split_ifs <;> decide
  refine (safe_repairLoaded hlength hwaits.1 hwaits.2 rows).mono (fun records s' hs' ↦ ?_)
    fun _ _ h ↦ h
  obtain ⟨rfl, hs'⟩ := hs'
  -- the record found is the stored one, repaired
  have hfound : (rows.map (Store.redacted env.redact)).find? (fun r ↦ r.id = id) =
      (s₁.world.store.get id).map (Store.redacted env.redact) := by
    rw [hstore, List.find?_map, Store.get]
    congr 2
    funext r
    simp
  have htested : s.Tested id (fun w ↦ w.tornDown id) (s₁.world.tornDown id) s' := by
    refine ⟨hup.trans hs'.upholds, hs'.outcomes.trans houtcomes, hs'.late.trans hlate,
      hs'.struck.trans hstruck, fun htorn ↦ ⟨?_, ?_⟩, fun htorn ↦ ⟨?_, ?_, ?_⟩⟩
    · exact cancelled_of_tornDown (hs'.upholds.2 htorn)
    · rw [hs'.overlooked, hstands, if_pos htorn, Looked.misses, Bool.and_false, Bool.or_false,
        hmissed, htorn, Bool.not_true, Bool.and_false, Bool.and_false, Bool.or_false]
    · exact Bool.eq_false_iff.mpr fun h ↦ Bool.eq_false_iff.mp htorn (hup.2 h)
    · rw [hs'.looked, hstands, htorn, if_neg Bool.false_ne_true]
    · have hmono : s₁.world.flagged id = true → s'.world.cancelled id = true := fun h ↦
        hs'.upholds.cancelled (by rw [World.cancelled, h, Bool.true_or])
      rw [hs'.overlooked, hstands, htorn, if_neg Bool.false_ne_true, Looked.misses, hmissed, htorn,
        Bool.not_false, Bool.and_true, houtcomes]
      cases hflag : s₁.world.flagged id
      · rw [Bool.and_false, Bool.or_false]
      · rw [hmono hflag, Bool.or_assoc, Bool.or_self]
  rw [safe_pure, hfound]
  rcases hget : s₁.world.store.get id with _ | record
  · have htorn : s₁.world.tornDown id = true := by rw [World.tornDown, hget]
    exact htorn ▸ htested
  · have htorn : s₁.world.tornDown id =
        decide ((Store.redacted env.redact record).status = .stopped) := by
      rw [World.tornDown, hget, status_redacted]
    rw [htorn] at htested
    exact htested

/-- The test after an attempt that failed. -/
theorem safe_teardownRequested (hs : s.outcomes.length ≤ pullAttempts)
    (hlooked : s.looked = .atNothing) :
    (teardownRequested env id).Safe (amongOthers env id) (s.Tested id fun w ↦ w.cancelled id)
      (fun _ _ ↦ False) s := by
  rw [teardownRequested, pullCancelRequested, safe_bind]
  refine safe_calm trivial hs fun found s₁ hwent hfound ↦ ?_
  obtain ⟨w, a, hexec⟩ := hfound
  obtain ⟨hup, heq⟩ := hwent
  have hflag : found = s₁.world.flagged id := by
    obtain ⟨hfound, hworld⟩ := Prod.mk.inj (Option.some.inj hexec)
    rw [← hfound, ← hworld, World.flagged]
    rcases w.pulls id with _ | _ | _ <;> rfl
  have houtcomes : s₁.outcomes = s.outcomes := by rw [heq]; rfl
  have hlate : s₁.late = s.late := by rw [heq]; rfl
  have hstruck : s₁.struck = s.struck := by rw [heq]; rfl
  have hmissed : s₁.overlooked = s.overlooked := by
    rw [heq]
    simp only [called, meet, hlooked, Looked.misses, Bool.and_false, Bool.or_false]
  rcases found with _ | _
  · -- the flag is down, so it is the record that decides
    have hdown : s.world.flagged id = false :=
      Bool.eq_false_iff.mpr fun h ↦ Bool.false_ne_true (hflag.trans (hup.1 h))
    have hstands : s₁.looked = .atFlag := by
      rw [heq]
      simp only [called, Looked.after, ← hflag]
      rfl
    have hlength : s₁.outcomes.length ≤ pullAttempts := houtcomes ▸ hs
    refine (safe_isTornDown hlength hstands).mono (fun found' s' h ↦ ?_) fun _ _ h ↦ h
    refine ⟨hup.trans h.upholds, h.outcomes.trans houtcomes, h.late.trans hlate,
      h.struck.trans hstruck, fun hseen ↦ ?_, fun hunseen ↦ ?_⟩
    · obtain ⟨hcancelled, hsame⟩ := h.seen hseen
      exact ⟨hcancelled, hsame.trans hmissed⟩
    · obtain ⟨htorn, hall, hsame⟩ := h.unseen hunseen
      have htorn' : s.world.tornDown id = false :=
        Bool.eq_false_iff.mpr fun h ↦ Bool.eq_false_iff.mp htorn (hup.2 h)
      refine ⟨?_, hall, ?_⟩
      · rw [World.cancelled, hdown, htorn', Bool.or_self]
      · rw [hsame, hmissed, houtcomes]
  · refine ⟨hup, houtcomes, hlate, hstruck, fun _ ↦ ⟨?_, hmissed⟩, fun h ↦ (nomatch h)⟩
    rw [World.cancelled, ← hflag, Bool.true_or]

/-! ## The loop -/

/-- The next attempt is about to be made, when so many are left. -/
structure AtHead (id : String) (left : Nat) (s : Retrying) : Prop where
  count : s.outcomes.length + left = pullAttempts
  failed : ∀ outcome ∈ s.outcomes, ∃ x, outcome = .error x
  looked : s.looked = .atAll
  late : s.late = false
  struck : s.struck = false
  overlooked : s.overlooked = s.world.cancelled id

/-- The loop is over with this result: an attempt was begun too late when a cancellation had been
overlooked, and all else is lawful. -/
def Came (id : String) (s : Retrying) (result : Except Exn Unit) : Prop :=
  s.late = s.overlooked ∧ Lawful { s with late := false } id result

theorem atHead_before (id : String) (w : World) : AtHead id pullAttempts (before id w) :=
  ⟨rfl, fun _ h ↦ (nomatch h), rfl, rfl, rfl, rfl⟩

/-- An attempt has been made of which the loop is to make something. -/
structure AtOutcome (id : String) (left : Nat) (outcome : Except Exn Unit) (s : Retrying) :
    Prop where
  count : s.outcomes.length + left = pullAttempts
  head : s.outcomes.head? = some outcome
  failed : ∀ outcome ∈ s.outcomes.tail, ∃ x, outcome = .error x
  looked : s.looked = .atNothing
  late : s.late = s.overlooked
  cancelled : s.late = true → s.world.cancelled id = true
  struck : s.struck = strikes id s.world outcome

theorem safe_attempt_pullImage {address ref : String} {left : Nat}
    {Q : Except Exn Unit → Retrying → Prop} {X : Exn → Retrying → Prop}
    (hs : s.AtHead id (left + 1))
    (h : ∀ outcome s', AtOutcome id left outcome s' → Q outcome s') :
    (node .pull address (.pullImage ref none)).attempt.Safe (amongOthers env id) Q X s := by
  rw [safe_attempt, node, safe_bind, safe_call]
  rintro _ rfl outcome s' ⟨t, ht⟩
  obtain ⟨hbegins, hends, heq⟩ := tried_of_exec ht
  have hcount := hs.count
  have hlt : s.outcomes.length < pullAttempts := by omega
  have houtcomes : s'.outcomes = outcome :: s.outcomes := by rw [heq]; rfl
  have hlate : s'.late = t.begins.cancelled id := by
    rw [heq]
    simp only [tried, meet, hs.late, Bool.false_or]
  have hmissed : s'.overlooked = t.begins.cancelled id := by
    rw [heq]
    simp only [tried, meet, hs.looked, Looked.misses, hs.overlooked, hlt, decide_true,
      Bool.true_and]
    cases hcancelled : s.world.cancelled id
    · rw [Bool.false_or]
    · rw [hbegins.cancelled hcancelled, Bool.or_self]
  have hafter : AtOutcome id left outcome s' := by
    refine ⟨?_, ?_, ?_, ?_, hlate.trans hmissed.symm, fun h ↦ ?_, ?_⟩
    · rw [houtcomes, List.length_cons]
      omega
    · rw [houtcomes, List.head?_cons]
    · rw [houtcomes, List.tail_cons]
      exact hs.failed
    · rw [heq]
      rfl
    · exact hends.cancelled (hlate ▸ h)
    · rw [heq]
      simp only [tried, meet, hs.struck, Bool.false_or]
  have hlength : s'.outcomes.length ≤ pullAttempts := by
    have := hafter.count
    omega
  refine ⟨hlength, ?_⟩
  rcases outcome with x | _
  · exact h _ _ hafter
  · exact h _ _ hafter

theorem Came.waits {result : Except Exn Unit} (h : s.Came id result) (hwaits : s.Waits id s')
    (hsame : s'.overlooked = s.overlooked) : s'.Came id result := by
  obtain ⟨hlate, hlawful⟩ := h
  refine ⟨by rw [hwaits.late, hsame, hlate], ?_, ?_, rfl, ?_, ?_, fun x hx ↦ ?_⟩
  · exact hwaits.outcomes ▸ hlawful.bounded
  · exact hwaits.outcomes ▸ hlawful.retried
  · exact fun hstruck ↦ hlawful.cancelled (hwaits.struck ▸ hstruck)
  · exact fun hresult ↦ hwaits.outcomes ▸ hlawful.returned hresult
  · rcases hlawful.raised x hx with ⟨hcancelled, hseen⟩ | hexhausted
    · exact .inl ⟨hcancelled, hseen.imp (fun h ↦ hwaits.struck ▸ h) hwaits.upholds.cancelled⟩
    · refine .inr ?_
      rw [Exhausted] at hexhausted ⊢
      exact hwaits.outcomes ▸ hexhausted

/-- An attempt that ends the loop by itself. -/
theorem AtOutcome.came {left : Nat} {outcome result : Except Exn Unit}
    (h : AtOutcome id left outcome s)
    (hcancelled : s.struck = true → ∃ text, result = .error (.pullCancelled text))
    (hreturned : result = .ok () → outcome = .ok ())
    (hraised : ∀ x, result = .error x → x.isPullCancelled = true ∧ s.struck = true) :
    s.Came id result := by
  have hcount := h.count
  refine ⟨h.late, ?_, h.failed, rfl, hcancelled, fun hresult ↦ ?_, fun x hx ↦ .inl ?_⟩
  · change s.outcomes.length ≤ pullAttempts
    omega
  · exact h.head.trans (congrArg some (hreturned hresult))
  · exact ⟨(hraised x hx).1, .inl (hraised x hx).2⟩

theorem eq_or_mem_tail {α : Type} {l : List α} {a b : α} (h : l.head? = some a) (hb : b ∈ l) :
    b = a ∨ b ∈ l.tail := by
  rcases l with _ | ⟨c, l⟩
  · cases h
  · obtain rfl := Option.some.inj h
    exact List.mem_cons.mp hb

/-- The message of the failure carries the text of the error. -/
theorem text_infix_pullFailureMessage (ref location got : String) (attempts : Nat) (x : Exn) :
    x.text.toList <:+: (pullFailureMessage ref location attempts got x).toList := by
  unfold pullFailureMessage
  simp only
  rcases x with text | text | text | text
  case pullStalled =>
    simp only [String.toList_append]
    refine List.IsInfix.trans ?_ (List.suffix_append _ _).isInfix
    exact List.IsInfix.trans (List.infix_append _ text.toList _) (List.prefix_append _ _).isInfix
  all_goals
    simp only [String.toList_append]
    exact List.IsInfix.trans (List.infix_append _ text.toList _) (List.prefix_append _ _).isInfix

section
variable {address ref location : String} {left : Nat}

/-- The loop from an attempt that failed. -/
def afterFailure (env : Env) (id address ref location : String) (left : Nat) (x : Exn) :
    Op Unit := do
  if ← teardownRequested env id then
    .raise (.pullCancelled s!"pull of {ref} cancelled")
  else
    let tried := pullAttempts - left
    if 0 < left then
      publish .imagePullProgress id
        (s!"pull of {ref} on {location} failed ({x.text}); retrying in " ++
          s!"{pullRetryBackoffSeconds tried}s — attempt {tried + 1} of {pullAttempts}")
      pullWithRetries env id address ref location left
    else
      let message := pullFailureMessage ref location tried (← invoke .bytesTransferred) x
      publish .imagePullFailed id message
      .raise (.native message)

theorem pullWithRetries_succ : pullWithRetries env id address ref location (left + 1) = (do
    match ← (node .pull address (.pullImage ref none)).attempt with
    | .ok _ => return
    | .error (.pullCancelled text) =>
      publish .imagePullCancelled id s!"pull of {ref} cancelled"
      .raise (.pullCancelled text)
    | .error x => afterFailure env id address ref location left x) := rfl

/-- What the loop makes of an attempt that failed, when it makes the right thing of the next. -/
theorem safe_afterFailure {x : Exn} (hs : AtOutcome id left (.error x) s)
    (hx : x.isPullCancelled = false)
    (hnext : ∀ s : Retrying, AtHead id left s → 0 < left →
      (pullWithRetries env id address ref location left).Safe (amongOthers env id)
        (fun _ s' ↦ s'.Came id (.ok ())) (fun x s' ↦ s'.Came id (.error x)) s) :
    (afterFailure env id address ref location left x).Safe (amongOthers env id)
      (fun _ s' ↦ s'.Came id (.ok ())) (fun x s' ↦ s'.Came id (.error x)) s := by
  have hcount := hs.count
  have hlength : s.outcomes.length ≤ pullAttempts := by omega
  rw [afterFailure, safe_bind]
  refine (safe_teardownRequested hlength hs.looked).mono (fun found s₁ h₁ ↦ ?_)
    fun _ _ h ↦ h.elim
  have hcount₁ : s₁.outcomes.length + left = pullAttempts := by rw [h₁.outcomes, hcount]
  have hlength₁ : s₁.outcomes.length ≤ pullAttempts := by omega
  have hhead : s₁.outcomes.head? = some (.error x) := h₁.outcomes ▸ hs.head
  have hfailed : ∀ outcome ∈ s₁.outcomes.tail, ∃ x, outcome = .error x := h₁.outcomes ▸ hs.failed
  rcases found with _ | _
  · obtain ⟨hclear, hlooked, hmissed⟩ := h₁.unseen rfl
    have hlate : s.late = false :=
      Bool.eq_false_iff.mpr fun h ↦ Bool.eq_false_iff.mp hclear (hs.cancelled h)
    have hstruck : s.struck = false := by
      rw [hs.struck, strikes, hclear, hx, Bool.or_self]
    have hunder : s₁.late = false ∧ s₁.struck = false :=
      ⟨h₁.late.trans hlate, h₁.struck.trans hstruck⟩
    rw [if_neg Bool.false_ne_true]
    by_cases hleft : 0 < left
    · -- one more attempt
      have hlt : s.outcomes.length < pullAttempts := by omega
      have hmissed₁ : s₁.overlooked = s₁.world.cancelled id := by
        rw [hmissed, ← hs.late, hlate, Bool.false_or, decide_eq_true hlt, Bool.true_and]
      simp only [if_pos hleft]
      rw [publish, safe_bind]
      refine safe_calm trivial hlength₁ fun _ s₂ hwent _ ↦ hnext s₂ ?_ hleft
      have hsame : s₂.looked = s₁.looked := by rw [hwent.2]; rfl
      have hwaits := hwent.waits hsame
      refine ⟨by rw [hwaits.outcomes, hcount₁], ?_, hsame.trans hlooked,
        hwaits.late.trans hunder.1, hwaits.struck.trans hunder.2, ?_⟩
      · rw [hwaits.outcomes]
        intro outcome houtcome
        rcases eq_or_mem_tail hhead houtcome with rfl | htail
        · exact ⟨x, rfl⟩
        · exact hfailed outcome htail
      · have hlt₁ : s₁.outcomes.length < pullAttempts := by omega
        rw [hwaits.overlooked, hmissed₁, hlooked, Looked.misses, decide_eq_true hlt₁,
          Bool.true_and]
        cases hcancelled : s₁.world.cancelled id
        · rw [Bool.false_or]
        · rw [hwaits.upholds.cancelled hcancelled, Bool.or_self]
    · -- the attempts are spent
      have hspent : pullAttempts ≤ s.outcomes.length := by omega
      have hmissed₁ : s₁.overlooked = false := by
        rw [hmissed, ← hs.late, hlate, Bool.false_or, decide_eq_false hspent.not_gt, Bool.false_and]
      have hquiet : ∀ s' s'' : Retrying, s'.outcomes = s₁.outcomes → s'.Waits id s'' →
          s''.overlooked = s'.overlooked := by
        intro s' s'' houtcomes hwaits
        rw [hwaits.overlooked, houtcomes, h₁.outcomes, decide_eq_false hspent.not_gt,
          Bool.false_and, Bool.or_false]
      have hcame : ∀ message : String, x.text.toList <:+: message.toList →
          s₁.Came id (.error (.native message)) := by
        intro message hmessage
        refine ⟨hunder.1.trans hmissed₁.symm, hlength₁, hfailed, rfl, fun h ↦ ?_,
          fun h ↦ (nomatch h), fun y hy ↦ .inr ⟨?_, x, message, hhead, ?_, hmessage⟩⟩
        · exact absurd (hunder.2.symm.trans h) Bool.false_ne_true
        · change s₁.outcomes.length = pullAttempts
          omega
        · exact (Except.error.inj hy).symm
      simp only [if_neg hleft]
      rw [safe_bind]
      refine safe_calm trivial hlength₁ fun got s₂ hwent _ ↦ ?_
      have hwaits₂ := hwent.waits (by rw [hwent.2]; rfl)
      have hlength₂ : s₂.outcomes.length ≤ pullAttempts := hwaits₂.outcomes ▸ hlength₁
      rw [publish, safe_bind]
      refine safe_calm trivial hlength₂ fun _ s₃ hwent₃ _ ↦ ?_
      have hwaits₃ := hwent₃.waits (by rw [hwent₃.2]; rfl)
      rw [safe_raise]
      refine ((hcame _ (text_infix_pullFailureMessage ..)).waits hwaits₂
        (hquiet _ _ rfl hwaits₂)).waits hwaits₃ (hquiet _ _ hwaits₂.outcomes hwaits₃)
  · obtain ⟨hcancelled, hmissed⟩ := h₁.seen rfl
    rw [if_pos rfl, safe_raise]
    refine ⟨by rw [h₁.late, hmissed, hs.late], hlength₁, hfailed, rfl, fun _ ↦ ⟨_, rfl⟩,
      fun h ↦ (nomatch h), fun y hy ↦ .inl ?_⟩
    obtain rfl := Except.error.inj hy
    exact ⟨rfl, .inr hcancelled⟩

/-- **The loop**, whatever the answers and whenever a cancellation comes up. -/
theorem safe_pullWithRetries (hs : AtHead id left s) (hleft : 0 < left) :
    (pullWithRetries env id address ref location left).Safe (amongOthers env id)
      (fun _ s' ↦ s'.Came id (.ok ())) (fun x s' ↦ s'.Came id (.error x)) s := by
  induction left generalizing s with
  | zero => exact absurd hleft (Nat.lt_irrefl 0)
  | succ left ih =>
    rw [pullWithRetries_succ, safe_bind]
    refine safe_attempt_pullImage hs fun outcome s₁ h₁ ↦ ?_
    have hfailed : ∀ x : Exn, outcome = .error x → x.isPullCancelled = false →
        (afterFailure env id address ref location left x).Safe (amongOthers env id)
          (fun _ s' ↦ s'.Came id (.ok ())) (fun x s' ↦ s'.Came id (.error x)) s₁ := by
      rintro x rfl hx
      exact safe_afterFailure h₁ hx fun s ↦ ih
    rcases outcome with (text | text | text | text) | _
    case error.pullCancelled =>
      have hstruck : s₁.struck = true := by
        rw [h₁.struck, strikes, Exn.isPullCancelled, Bool.or_true]
      have hcount := h₁.count
      have hcame : s₁.Came id (.error (.pullCancelled text)) := by
        refine h₁.came (fun _ ↦ ⟨text, rfl⟩) (fun h ↦ (nomatch h)) fun x hx ↦ ?_
        obtain rfl := Except.error.inj hx
        exact ⟨rfl, hstruck⟩
      rw [publish, safe_bind]
      refine safe_calm trivial (by omega) fun _ s₂ hwent _ ↦ ?_
      have hwaits := hwent.waits (by rw [hwent.2]; rfl)
      rw [safe_raise]
      refine hcame.waits hwaits ?_
      rw [hwaits.overlooked, h₁.looked, Looked.misses, Bool.and_false, Bool.or_false]
    case ok =>
      rw [safe_pure]
      refine h₁.came (fun hstruck ↦ ?_) (fun _ ↦ rfl) fun x hx ↦ (nomatch hx)
      rw [h₁.struck] at hstruck
      cases hstruck
    all_goals exact hfailed _ rfl rfl

/-- The calls of the loop. -/
def Asks (e : Call) : Prop :=
  Calm e ∨ ∃ phase address ref relay, e = .node phase address (.pullImage ref relay)

theorem afterFailure_uses {x : Exn}
    (hnext : 0 < left → (pullWithRetries env id address ref location left).Uses Asks) :
    (afterFailure env id address ref location left x).Uses Asks := by
  have hrepair : ∀ rows, (repairLoaded env rows).Uses Asks :=
    repairLoaded_uses_of fun _ _ ↦ .inl rfl
  have htorn : (isTornDown env id).Uses Asks :=
    (((uses_call.mpr (.inl trivial)).bind hrepair).bind fun _ ↦ uses_pure).bind fun found ↦ by
      rcases found with _ | _ <;> exact uses_pure
  have htest : (teardownRequested env id).Uses Asks :=
    (uses_call.mpr (.inl trivial)).bind fun _ ↦ .ite (fun _ ↦ uses_pure) fun _ ↦ htorn
  refine htest.bind fun _ ↦ .ite (fun _ ↦ trivial) fun _ ↦ .ite (fun hleft ↦ ?_) fun _ ↦ ?_
  · exact (uses_call.mpr (.inl trivial)).bind fun _ ↦ hnext hleft
  · exact (uses_call.mpr (.inl trivial)).bind fun _ ↦
      (uses_call.mpr (.inl trivial)).bind fun _ ↦ trivial

theorem pullWithRetries_asks (left : Nat) :
    (pullWithRetries env id address ref location left).Uses Asks := by
  induction left with
  | zero => trivial
  | succ left ih =>
    rw [pullWithRetries_succ]
    have hattempt : (node .pull address (.pullImage ref none)).Uses Asks :=
      uses_node (.inr ⟨_, _, _, _, rfl⟩)
    refine hattempt.attempt.bind fun outcome ↦ ?_
    rcases outcome with (text | text | text | text) | _
    case error.pullCancelled => exact (uses_call.mpr (.inl trivial)).bind fun _ ↦ trivial
    case ok => exact uses_pure
    all_goals exact afterFailure_uses fun _ ↦ ih

/-- Each call of the loop can be answered, at the least with nothing having happened. -/
theorem exists_turn (he : Asks e) (s : Retrying) : ∃ t, (s.exec env id e t).isSome = true := by
  refine ⟨⟨s.world, s.world, {}⟩, ?_⟩
  rcases he with he | ⟨phase, address, ref, relay, rfl⟩
  · rw [exec_of_calm he, if_pos (.refl _)]
    rcases e with _ | _ | _ | _ | _ | _ | _ | _ | _ | _ | _ | _ | _ | _ | _ | _ | _ | _ | _ | _ |
      _ | _ | _ | _
    case rows | pullCancelRequested | publish | bytesTransferred | updateRow => rfl
    all_goals exact he.elim
  · rw [exec_pullImage, if_pos ⟨.refl _, .refl _⟩]
    rfl

end

end Retrying

/-! ## Runs -/

theorem Retrying.Came.lawful_iff {s : Retrying} {id : String} {result : Except Exn Unit}
    (h : s.Came id result) : s.Lawful id result ↔ s.overlooked = false := by
  obtain ⟨hlate, hrest⟩ := h
  constructor
  · intro hlawful
    exact hlate.symm.trans hlawful.unstarted
  · intro hnone
    exact ⟨hrest.bounded, hrest.retried, hlate.trans hnone, hrest.cancelled, hrest.returned,
      hrest.raised⟩

/-- **Retries and cancellations.** However the attempts come out and whenever a cancellation comes
up, no more than the configured attempts are made, the loop comes to an end, and its end is lawful
exactly when no cancellation came up that it was not going to see before its next attempt. -/
theorem lawful_iff_not_overlooked (env : Env) (id address ref location : String) (w : World) :
    (∀ s, (pulling env id address ref location w).Reachable Guard.free s →
      s.world.outcomes.length ≤ pullAttempts ∧
      ((∃ result, s.Ended result) ∨
        ∃ turn t, (pulling env id address ref location w).next s turn = some t) ∧
      ∀ result, s.Ended result → (s.world.Lawful id result ↔ s.world.overlooked = false)) ∧
    ∀ run : ℕ → Threads Unit Call.Ret Exn Unit Retrying,
      ¬∀ n, ∃ turn,
        (pulling env id address ref location w).next (run n) turn = some (run (n + 1)) := by
  refine ⟨fun s hs ↦ ?_, Threads.solo_ends⟩
  have hsafe : (pullWithRetries env id address ref location pullAttempts).Safe
      (amongOthers env id) (fun _ s ↦ s.Came id (.ok ())) (fun x s ↦ s.Came id (.error x))
      (.before id w) :=
    Retrying.safe_pullWithRetries (Retrying.atHead_before id w) (by decide)
  have huses : (pullWithRetries env id address ref location pullAttempts).Uses fun e ↦
      ∀ s : Retrying, ∃ t, (s.exec env id e t).isSome = true :=
    (Retrying.pullWithRetries_asks pullAttempts).mono fun _ he ↦ Retrying.exists_turn he
  obtain ⟨hbound, hok, herror⟩ := Threads.solo_rule
    (I := fun s : Retrying ↦ s.outcomes.length ≤ pullAttempts) hsafe (fun _ _ h _ ↦ h)
      (Nat.zero_le _) hs
  refine ⟨hbound, Threads.ended_or_next huses hs, fun result hresult ↦ ?_⟩
  rcases result with x | _
  · exact (herror x hresult).lawful_iff
  · exact (hok () hresult).lawful_iff

/-! ## Two cancellations

One comes while the first attempt is under way, the other while the loop waits for the second. -/

private theorem controlOnly_local : decide ("" = "") = true := rfl

private def controlOnly : Env where
  isLocal a := a = ""
  isLocal_empty := controlOnly_local
  redact _ := none
  serveProgram command := command
  controlLabel := ""
  readyTimeout := 900

/-- A deployment is pulling. -/
private def midPull : World where
  store := ⟨[{ id := "d", status := .pulling }], by decide, by decide⟩
  pulls id := if id = "d" then some false else none

/-- Its pull has been cancelled. -/
private def flagUp : World :=
  { midPull with pulls := fun id ↦ if id = "d" then some true else none }

/-- The registry went silent. -/
private def wentSilent : Answer where
  raises := some (.pullStalled "no bytes for 300 s")

/-- The first attempt goes silent, and the flag is up before it does. -/
private def struckAtOnce : List (Unit × Turn) :=
  [((), ⟨midPull, flagUp, wentSilent⟩), ((), ⟨flagUp, flagUp, {}⟩)]

/-- The first attempt goes silent, a retry is announced, and the flag is up before it begins. -/
private def struckWaiting : List (Unit × Turn) :=
  [((), ⟨midPull, midPull, wentSilent⟩), ((), ⟨midPull, midPull, {}⟩), ((), ⟨midPull, midPull, {}⟩),
    ((), ⟨midPull, midPull, {}⟩), ((), ⟨flagUp, flagUp, {}⟩)]

private def pullOfTwo : System (Threads Unit Call.Ret Exn Unit Retrying) (Unit × Turn) :=
  pulling controlOnly "d" "10.0.0.2" "vllm:latest" "node-2" midPull

private def beforeBoth : Threads Unit Call.Ret Exn Unit Retrying :=
  ⟨fun _ ↦ pullWithRetries controlOnly "d" "10.0.0.2" "vllm:latest" "node-2" pullAttempts,
    .before "d" midPull⟩

/-- A cancellation that comes while the first attempt is under way ends the pull. -/
theorem struckAtOnce_lawful :
    ∃ s, (pulling controlOnly "d" "10.0.0.2" "vllm:latest" "node-2" midPull).Reachable
        Guard.free s ∧
      s.Ended (.error (.pullCancelled "pull of vllm:latest cancelled")) ∧
      s.world.Lawful "d" (.error (.pullCancelled "pull of vllm:latest cancelled")) := by
  have hrun : (pullOfTwo.run beforeBoth struckAtOnce).map
      (fun s ↦ (s.world.overlooked, s.result)) =
        some (false, some (.error (.pullCancelled "pull of vllm:latest cancelled"))) := by
    decide +kernel
  obtain ⟨s, hs, hview⟩ := Option.map_eq_some_iff.mp hrun
  obtain ⟨hnone, hresult⟩ := Prod.mk.inj hview
  have hreach : pullOfTwo.Reachable Guard.free s := ⟨_, rfl, System.steps_of_run hs⟩
  have hended := Threads.ended_iff.mpr hresult
  exact ⟨s, hreach, hended, (((lawful_iff_not_overlooked controlOnly "d" "10.0.0.2" "vllm:latest"
    "node-2" midPull).1 s hreach).2.2 _ hended).mpr hnone⟩

/-- One that comes while the loop waits is followed by another attempt, whose image is kept. -/
theorem struckWaiting_not_lawful :
    ¬∀ (env : Env) (id address ref location : String) (w : World),
      ∀ s, (pulling env id address ref location w).Reachable Guard.free s →
        ∀ result, s.Ended result → s.world.Lawful id result := by
  intro hlawful
  have hrun : (pullOfTwo.run beforeBoth struckWaiting).map
      (fun s ↦ (s.world.late, s.result)) = some (true, some (.ok ())) := by decide +kernel
  obtain ⟨s, hs, hview⟩ := Option.map_eq_some_iff.mp hrun
  obtain ⟨hlate, hresult⟩ := Prod.mk.inj hview
  have hreach : pullOfTwo.Reachable Guard.free s := ⟨_, rfl, System.steps_of_run hs⟩
  have hunstarted := (hlawful _ _ _ _ _ _ s hreach _ (Threads.ended_iff.mpr hresult)).unstarted
  rw [hlate] at hunstarted
  cases hunstarted

end SparkPulse.Runtime
