import SparkPulse.Auth.Authentic

/-!
# The store, unswept

`sessions.get` deletes an expired row as it reads it, and a callback sweeps the table before it
creates a session. While the clock goes forward neither is ever observed: every read is answered as
by a store that keeps each session until it is removed, and looks at the clock.
-/

namespace SparkPulse.Auth

open Program Transition

variable {ι : Type}

/-- What a store answers in which nothing is swept. -/
def served (token : String) (now : ℚ) (log : List (Event ι)) : Option (Session ι) :=
  (liveOf token log).filter fun session ↦ !session.expired now

/-- A history in which every read was answered so. -/
def Faithful : List (Event ι) → Prop
  | [] => True
  | .loaded _ token session now :: log => served token now log = some session ∧ Faithful log
  | .missed _ token now :: log => served token now log = none ∧ Faithful log
  | _ :: log => Faithful log

/-- The store is not read at, or swept for, a moment before the last. -/
def Call.Forward (clock now : ℚ) : Call ι → Prop
  | getSession _ | sweepSessions => clock ≤ now
  | _ => True

instance (clock now : ℚ) (c : Call ι) : Decidable (c.Forward clock now) := by
  unfold Call.Forward
  split <;> infer_instance

/-- The store's clock does not go back. -/
def forward : Guard (Threads Tid (@Call.Ret ι) HttpError (Response ι) (World ι)) (Tid × Answer ι) :=
  fun s a ↦
    match s.pool a.1 with
    | .ret _ | .raise _ => True
    | .op c _ => c.Forward s.world.clock a.2.now

instance (s : Threads Tid (@Call.Ret ι) HttpError (Response ι) (World ι)) (a : Tid × Answer ι) :
    Decidable (forward s a) := by
  unfold forward
  split <;> infer_instance

/-! ## What holds of the table -/

/-- From now on the table answers like the store in which nothing is swept. -/
structure Stored (w : World ι) : Prop where
  rows : ∀ token now, w.clock ≤ now →
    (w.sessions token).filter (fun session ↦ !session.expired now) = served token now w.log
  faithful : Faithful w.log

theorem expired_mono {session : Session ι} {now later : ℚ} (hle : now ≤ later)
    (h : session.expired now = true) : session.expired later = true := by
  rw [Session.expired, Bool.and_eq_true, decide_eq_true_eq] at h ⊢
  exact ⟨h.1, of_decide_eq_true h.2 |>.trans hle |> decide_eq_true⟩

section
variable {i : Tid} {w : World ι}

theorem stored_getSession (hw : Stored w) {now : ℚ} (hnow : w.clock ≤ now) (token : String) :
    Stored (w.getSession i now token).2 := by
  have hserved := hw.rows token now hnow
  rw [World.getSession]
  split
  next hnone =>
    rw [hnone] at hserved
    exact ⟨fun t later hlater ↦ hw.rows t later (hnow.trans hlater), hserved.symm, hw.faithful⟩
  next session hsession =>
    rw [hsession, Option.filter_some] at hserved
    split_ifs with hexpired
    · rw [hexpired] at hserved
      refine ⟨fun t later hlater ↦ ?_, hserved.symm, hw.faithful⟩
      have hold := hw.rows t later (hnow.trans hlater)
      change (Function.update w.sessions token none t).filter _ = _
      rcases eq_or_ne t token with rfl | hne
      · rw [hsession, Option.filter_some, expired_mono hlater hexpired] at hold
        rw [Function.update_self]
        exact hold
      · rw [Function.update_of_ne hne]
        exact hold
    · rw [Bool.not_eq_true] at hexpired
      rw [hexpired] at hserved
      exact ⟨fun t later hlater ↦ hw.rows t later (hnow.trans hlater), hserved.symm, hw.faithful⟩

theorem stored_sweepSessions (hw : Stored w) {now : ℚ} (hnow : w.clock ≤ now) :
    Stored (w.sweepSessions now) := by
  refine ⟨fun token later hlater ↦ ?_, hw.faithful⟩
  refine Eq.trans ?_ (hw.rows token later (hnow.trans hlater))
  rw [World.sweepSessions, Option.filter_filter]
  refine congrArg (Option.filter · _) (funext fun session ↦ ?_)
  cases h : session.expired now with
  | false => simp
  | true => simp [expired_mono hlater h]

theorem stored_createSession (hw : Stored w) (token : String) (session : Session ι) :
    Stored (w.createSession i token session) := by
  refine ⟨fun t later hlater ↦ ?_, hw.faithful⟩
  change (Function.update w.sessions token (some session) t).filter _ = _
  rw [served, World.createSession, liveOf]
  rcases eq_or_ne t token with rfl | hne
  · rw [if_pos rfl, Function.update_self]
  · rw [if_neg hne.symm, Function.update_of_ne hne]
    exact hw.rows t later hlater

theorem stored_removeSession (hw : Stored w) (token : String) :
    Stored (w.removeSession i token).2 := by
  rw [World.removeSession]
  split
  · exact hw
  · refine ⟨fun t later hlater ↦ ?_, hw.faithful⟩
    change (Function.update w.sessions token none t).filter _ = _
    rw [served, liveOf]
    rcases eq_or_ne t token with rfl | hne
    · rw [if_pos rfl, Function.update_self]
    · rw [if_neg hne.symm, Function.update_of_ne hne]
      exact hw.rows t later hlater

theorem stored_consumeState (hw : Stored w) (now : ℚ) (state : String) :
    Stored (w.consumeState i now state).2 := by
  rw [World.consumeState]
  split <;> exact ⟨hw.rows, hw.faithful⟩

/-- **One call.** -/
theorem stored_of_exec {c : Call ι} {r : c.Ret} {w' : World ι} {a : Answer ι} (hw : Stored w)
    (hforward : c.Forward w.clock a.now) (h : Call.exec i w c a = some (r, w')) : Stored w' := by
  cases c with
  | getSession token =>
    obtain rfl := congrArg Prod.snd (Option.some.inj h)
    exact stored_getSession hw hforward token
  | sweepSessions =>
    obtain rfl := congrArg Prod.snd (Option.some.inj h)
    exact stored_sweepSessions hw hforward
  | createSession =>
    rw [Call.exec] at h
    split_ifs at h
    obtain rfl := congrArg Prod.snd (Option.some.inj h)
    exact stored_createSession hw _ _
  | removeSession token =>
    obtain rfl := congrArg Prod.snd (Option.some.inj h)
    exact stored_removeSession hw token
  | consumeState state =>
    obtain rfl := congrArg Prod.snd (Option.some.inj h)
    exact stored_consumeState hw a.now state
  | issueState =>
    rw [Call.exec] at h
    split_ifs at h
    obtain rfl := congrArg Prod.snd (Option.some.inj h)
    exact ⟨hw.rows, hw.faithful⟩
  | decode =>
    rw [Call.exec] at h
    split at h
    all_goals
      obtain rfl := congrArg Prod.snd (Option.some.inj h)
      exact ⟨hw.rows, hw.faithful⟩
  | cached | fetchDocument | cacheDocument | exchange | fetchKeys | userinfo | enter =>
    obtain rfl := congrArg Prod.snd (Option.some.inj h)
    exact ⟨hw.rows, hw.faithful⟩

end

/-! ## Every run -/

/-- **Sweeps are not observed.** In every run in which the store's clock does not go back, each
read of a session is answered with the session created last under the token, unless it was removed
or has expired by then, and with nothing otherwise. -/
theorem sweeps_unobserved {env : Env} {requests : Tid → Request}
    {s : Threads Tid (@Call.Ret ι) HttpError (Response ι) (World ι)}
    (h : (system env requests).Reachable forward s) : Faithful s.world.log := by
  refine (h.invariant (I := fun s ↦ Stored s.world) ?_ ?_).faithful
  · rintro s ⟨-, -, hsessions, -, hlog⟩
    refine ⟨fun token now _ ↦ ?_, ?_⟩
    · rw [hsessions, hlog]
      rfl
    · rw [hlog]
      trivial
  · intro s a t hs hG hn
    have hfree : Threads.stepGuard (fun _ _ _ ↦ True) s a := by
      unfold Threads.stepGuard
      split <;> trivial
    obtain ⟨c, k, r, hpool, -, -⟩ := Threads.next_cases hfree hn
    rw [forward, hpool] at hG
    change Threads.next Call.exec s a = some t at hn
    rw [Threads.next, hpool] at hn
    obtain ⟨⟨r, w'⟩, hr, rfl⟩ := Option.map_eq_some_iff.mp hn
    exact stored_of_exec hs hG hr

/-- A session is served while it lasts, and not after. -/
theorem sweeps_unobserved_login : ∃ s, (system guarded browsed).runUnder forward
      ⟨fun i ↦ handle guarded (browsed i), {}⟩ (oneLogin ++ [(3, { provided with now := 3600 })]) =
        some s ∧
    s.world.log.head? = some (.missed 3 "cookie" 3600) ∧ Faithful s.world.log := by
  obtain ⟨s, hs, hlog⟩ := (Option.any_eq_true _ _).mp (show ((system guarded browsed).runUnder forward
      ⟨fun i ↦ handle guarded (browsed i), {}⟩ (oneLogin ++ [(3, { provided with now := 3600 })])).any
        (fun s ↦ decide (s.world.log.head? = some (.missed 3 "cookie" 3600))) = true
    by decide +kernel)
  exact ⟨s, hs, of_decide_eq_true hlog,
    sweeps_unobserved ⟨_, ⟨rfl, rfl, rfl, rfl, rfl⟩, System.steps_of_runUnder hs⟩⟩

end SparkPulse.Auth
