import SparkPulse.Auth.Login

/-!
# Who may enter

A session is created only by a request that has redeemed, once and in time, a state this server has
issued, and that holds a verified ID token which carries the nonce issued with that state. A
protected endpoint is entered only by a request whose cookie names a session that was created so,
that has not been removed and has not expired. Both are correspondences: properties of the history,
in which each event is accounted for by earlier ones.
-/

namespace SparkPulse.Auth

open Program Transition

variable {ι : Type}

/-! ## The history -/

/-- When a state was issued and with which nonce, if it has not been redeemed since. -/
def openOf (state : String) : List (Event ι) → Option (ℚ × String)
  | [] => none
  | .issued _ s nonce minted :: log => if s = state then some (minted, nonce) else openOf state log
  | .redeemed _ s _ _ :: log => if s = state then none else openOf state log
  | _ :: log => openOf state log

/-- The session that was created under a token, if it has not been removed since. -/
def liveOf (token : String) : List (Event ι) → Option (Session ι)
  | [] => none
  | .created _ t session :: log => if t = token then some session else liveOf token log
  | .removed _ t :: log => if t = token then none else liveOf token log
  | _ :: log => liveOf token log

/-- The session is that of a subject who has logged in by this request. -/
def LoggedIn (i : Tid) (session : Session ι) (log : List (Event ι)) : Prop :=
  ∃ state nonce now algorithms claims,
    .redeemed i state nonce now ∈ log ∧ .verified i algorithms claims ∈ log ∧
      claims.nonce = some nonce ∧ claims.sub = session.user.sub

/-- What must have come before an event. -/
def Grounded (env : Env) (log : List (Event ι)) : Event ι → Prop
  | .issued _ _ nonce _ => nonce ≠ ""
  | .redeemed _ state nonce now =>
    ∃ minted, openOf state log = some (minted, nonce) ∧ nonce ≠ "" ∧ now - minted ≤ stateTtl
  | .verified _ algorithms _ => ∀ alg ∈ algorithms, alg.toLower ≠ "none"
  | .created i _ session =>
    LoggedIn i session log ∧ ∀ token session', .created i token session' ∉ log
  | .loaded _ token session now => liveOf token log = some session ∧ session.expired now = false
  | .entered i request =>
    csrfAllows env request = true ∧
      (env.authEnabled = false ∨ isPublic request.path = true ∨
        ∃ token session now, request.token = some token ∧ .loaded i token session now ∈ log)
  | .removed .. | .missed .. => True

/-- A history in which every event is accounted for. The latest event comes first. -/
def Authentic (env : Env) : List (Event ι) → Prop
  | [] => True
  | e :: log => Grounded env log e ∧ Authentic env log

theorem Authentic.grounded {env : Env} {log : List (Event ι)} (h : Authentic env log) {e : Event ι}
    (he : e ∈ log) : ∃ past, past <:+ log ∧ Grounded env past e := by
  induction log with
  | nil => cases he
  | cons e' log ih =>
    rcases List.mem_cons.mp he with rfl | he
    · exact ⟨log, List.suffix_cons e log, h.1⟩
    · obtain ⟨past, hpast, hgrounded⟩ := ih h.2 he
      exact ⟨past, hpast.trans (List.suffix_cons e' log), hgrounded⟩

theorem nonce_of_redeemed {env : Env} {log : List (Event ι)} (h : Authentic env log) {i : Tid}
    {state nonce : String} {now : ℚ} (hmem : .redeemed i state nonce now ∈ log) : nonce ≠ "" := by
  obtain ⟨_, -, _, -, hnonce, -⟩ := h.grounded hmem
  exact hnonce

/-! ## What holds of the world -/

structure Sound (env : Env) (w : World ι) : Prop where
  pending : ∀ state entry, w.pending state = some entry →
    openOf state w.log = some entry ∧ entry.2 ≠ ""
  sessions : ∀ token session, w.sessions token = some session → liveOf token w.log = some session
  authentic : Authentic env w.log

/-- The history grows, by no event of a thread while the others run. -/
def Keeps (i : Tid) (v w : World ι) : Prop := ∃ new, w.log = new ++ v.log ∧ ∀ e ∈ new, e.tid ≠ i

theorem Keeps.refl (i : Tid) (w : World ι) : Keeps i w w := ⟨[], rfl, nofun⟩

theorem Keeps.trans (i : Tid) (u v w : World ι) (huv : Keeps i u v) (hvw : Keeps i v w) :
    Keeps i u w := by
  obtain ⟨new, hnew, hother⟩ := huv
  obtain ⟨new', hnew', hother'⟩ := hvw
  refine ⟨new' ++ new, by rw [hnew', hnew, List.append_assoc], fun e he ↦ ?_⟩
  exact (List.mem_append.mp he).elim (hother' e) (hother e)

/-- The setting of a request among the others. -/
abbrev shared (env : Env) (i : Tid) : Setting (@Call.Ret ι) (World ι) :=
  Threads.sharing Call.exec (fun _ _ _ ↦ True) (Sound env) Keeps i

theorem compatible_shared (env : Env) : Threads.Compatible (@shared ι env) :=
  Threads.compatible_sharing Keeps.refl Keeps.trans

/-- What a request knows: events of the history, and that it has created no session. -/
structure Knows (env : Env) (i : Tid) (es : List (Event ι)) (w : World ι) : Prop where
  sound : Sound env w
  past : ∀ e ∈ es, e ∈ w.log
  first : ∀ token session, .created i token session ∉ w.log

section
variable {env : Env} {i : Tid} {es : List (Event ι)} {v w : World ι}

theorem Knows.keeps (h : Knows env i es v) (hw : Sound env w) (hkeep : Keeps i v w) :
    Knows env i es w := by
  obtain ⟨new, hnew, hother⟩ := hkeep
  refine ⟨hw, fun e he ↦ hnew ▸ List.mem_append_right _ (h.past e he), fun token session hmem ↦ ?_⟩
  rw [hnew] at hmem
  rcases List.mem_append.mp hmem with hmem | hmem
  · exact hother _ hmem rfl
  · exact h.first token session hmem

/-! ## One call -/

/-- What a reply tells of the history. -/
def Call.Told (i : Tid) (log : List (Event ι)) : (c : Call ι) → c.Ret → Prop
  | .consumeState state, some nonce => ∃ now, .redeemed i state nonce now ∈ log
  | .decode algorithms _ _ _ _, .ok claims => .verified i algorithms claims ∈ log
  | .getSession token, some session => ∃ now, .loaded i token session now ∈ log
  | _, _ => True

/-- A call that any request may make at any time. -/
def Call.Quiet : Call ι → Prop
  | .decode algorithms _ _ _ _ => ∀ alg ∈ algorithms, alg.toLower ≠ "none"
  | .createSession .. | .enter _ => False
  | _ => True

/-- A quiet call: at most one event, and no session is created. -/
structure Leaves (env : Env) (i : Tid) (v w : World ι) : Prop where
  sound : Sound env w
  log : w.log = v.log ∨ ∃ e, w.log = e :: v.log ∧ e.tid = i ∧
    ∀ token session, e ≠ .created i token session

theorem Leaves.keeps (h : Leaves env i v w) {j : Tid} (hj : j ≠ i) : Keeps j v w := by
  rcases h.log with hlog | ⟨e, hlog, htid, -⟩
  · exact ⟨[], hlog, nofun⟩
  · refine ⟨[e], hlog, fun e' he' ↦ ?_⟩
    rw [List.mem_singleton.mp he', htid]
    exact hj.symm

theorem Leaves.mem (h : Leaves env i v w) {e : Event ι} (he : e ∈ v.log) : e ∈ w.log := by
  rcases h.log with hlog | ⟨e', hlog, -, -⟩
  · rwa [hlog]
  · rw [hlog]
    exact List.mem_cons_of_mem _ he

theorem Leaves.knows (h : Leaves env i v w) (hv : Knows env i es v) : Knows env i es w := by
  refine ⟨h.sound, fun e he ↦ h.mem (hv.past e he), fun token session hmem ↦ ?_⟩
  rcases h.log with hlog | ⟨e, hlog, -, hne⟩
  · exact hv.first token session (hlog ▸ hmem)
  · rw [hlog] at hmem
    rcases List.mem_cons.mp hmem with heq | hmem
    · exact hne token session heq.symm
    · exact hv.first token session hmem

theorem sweepStates_eq_some {now : ℚ} {pending : String → Option (ℚ × String)} {state : String}
    {entry : ℚ × String} (h : sweepStates now pending state = some entry) :
    pending state = some entry ∧ now - entry.1 ≤ stateTtl := by
  obtain ⟨hentry, hfresh⟩ := Option.filter_eq_some_iff.mp h
  exact ⟨hentry, of_decide_eq_true hfresh⟩

/-- A step that only drops states and rows. -/
theorem leaves_of_rows (hv : Sound env v) (hlog : w.log = v.log)
    (hpending : ∀ state entry, w.pending state = some entry → v.pending state = some entry)
    (hsessions : ∀ token session, w.sessions token = some session →
      v.sessions token = some session) : Leaves env i v w := by
  refine ⟨⟨fun state entry h ↦ ?_, fun token session h ↦ ?_, ?_⟩, .inl hlog⟩
  · rw [hlog]
    exact hv.pending state entry (hpending state entry h)
  · rw [hlog]
    exact hv.sessions token session (hsessions token session h)
  · rw [hlog]
    exact hv.authentic

theorem leaves_same (hv : Sound env v) : Leaves env i v v :=
  leaves_of_rows hv rfl (fun _ _ h ↦ h) fun _ _ h ↦ h

theorem leaves_issueState (hv : Sound env v) (now later : ℚ) (state nonce : String)
    (hnonce : nonce ≠ "") : Leaves env i v (v.issueState i now later state nonce) := by
  refine ⟨⟨fun state' entry h ↦ ?_, hv.sessions, hnonce, hv.authentic⟩,
    .inr ⟨_, rfl, rfl, nofun⟩⟩
  change Function.update _ _ _ _ = _ at h
  rw [World.issueState, openOf]
  rcases eq_or_ne state' state with rfl | hne
  · rw [Function.update_self] at h
    rw [if_pos rfl, ← h]
    exact ⟨rfl, by rw [← Option.some.inj h]; exact hnonce⟩
  · rw [Function.update_of_ne hne] at h
    rw [if_neg hne.symm]
    exact hv.pending state' entry (sweepStates_eq_some h).1

theorem leaves_consumeState (hv : Sound env v) (now : ℚ) (state : String) :
    Leaves env i v (v.consumeState i now state).2 ∧
      Call.Told i (v.consumeState i now state).2.log (.consumeState state)
        (v.consumeState i now state).1 := by
  rw [World.consumeState]
  split
  next hnone =>
    exact ⟨leaves_of_rows hv rfl (fun _ _ h ↦ (sweepStates_eq_some h).1) fun _ _ h ↦ h, trivial⟩
  next minted nonce hsome =>
    obtain ⟨hentry, hfresh⟩ := sweepStates_eq_some hsome
    obtain ⟨hopen, hnonce⟩ := hv.pending state _ hentry
    refine ⟨⟨⟨fun state' entry h ↦ ?_, hv.sessions, ⟨minted, hopen, hnonce, hfresh⟩, hv.authentic⟩,
      .inr ⟨_, rfl, rfl, nofun⟩⟩, now, List.mem_cons_self⟩
    change Function.update _ _ _ _ = _ at h
    rw [openOf]
    rcases eq_or_ne state' state with rfl | hne
    · rw [Function.update_self] at h
      cases h
    · rw [Function.update_of_ne hne] at h
      rw [if_neg hne.symm]
      exact hv.pending state' entry (sweepStates_eq_some h).1

theorem leaves_getSession (hv : Sound env v) (now : ℚ) (token : String) :
    Leaves env i v (v.getSession i now token).2 ∧
      Call.Told i (v.getSession i now token).2.log (.getSession token)
        (v.getSession i now token).1 := by
  rw [World.getSession]
  split
  next => exact ⟨⟨⟨hv.pending, hv.sessions, trivial, hv.authentic⟩, .inr ⟨_, rfl, rfl, nofun⟩⟩, trivial⟩
  next session hsession =>
    split_ifs with hexpired
    · refine ⟨⟨⟨hv.pending, fun token' session' h ↦ ?_, trivial, hv.authentic⟩,
        .inr ⟨_, rfl, rfl, nofun⟩⟩, trivial⟩
      change Function.update _ _ _ _ = _ at h
      rw [Function.update_apply] at h
      split_ifs at h
      exact hv.sessions token' session' h
    · refine ⟨⟨⟨hv.pending, hv.sessions, ⟨hv.sessions token session hsession, ?_⟩, hv.authentic⟩,
        .inr ⟨_, rfl, rfl, nofun⟩⟩, now, List.mem_cons_self⟩
      exact Bool.not_eq_true _ ▸ hexpired

theorem leaves_removeSession (hv : Sound env v) (token : String) :
    Leaves env i v (v.removeSession i token).2 := by
  rw [World.removeSession]
  split
  next => exact leaves_same hv
  next =>
    refine ⟨⟨hv.pending, fun token' session' h ↦ ?_, trivial, hv.authentic⟩,
      .inr ⟨_, rfl, rfl, nofun⟩⟩
    change Function.update _ _ _ _ = _ at h
    rw [liveOf]
    rcases eq_or_ne token' token with rfl | hne
    · rw [Function.update_self] at h
      cases h
    · rw [Function.update_of_ne hne] at h
      rw [if_neg hne.symm]
      exact hv.sessions token' session' h

/-- **One call.** -/
theorem leaves_of_quiet {c : Call ι} {r : c.Ret} (hv : Sound env v) (hc : c.Quiet)
    (h : Threads.performs Call.exec (fun _ _ _ ↦ True) i v c r w) :
    Leaves env i v w ∧ c.Told i w.log r := by
  obtain ⟨-, a, h⟩ := h
  cases c with
  | issueState =>
    rw [Call.exec] at h
    split_ifs at h with hempty
    obtain ⟨-, rfl⟩ := Prod.mk.inj (Option.some.inj h)
    exact ⟨leaves_issueState hv _ _ _ _ fun hnonce ↦ hempty (.inr hnonce), trivial⟩
  | consumeState state =>
    obtain ⟨rfl, rfl⟩ := Prod.mk.inj (Option.some.inj h)
    exact leaves_consumeState hv a.now state
  | decode algorithms issuer audience idToken keys =>
    rw [Call.exec] at h
    split at h
    next =>
      obtain ⟨rfl, rfl⟩ := Prod.mk.inj (Option.some.inj h)
      exact ⟨leaves_same hv, trivial⟩
    next claims hclaims =>
      obtain ⟨rfl, rfl⟩ := Prod.mk.inj (Option.some.inj h)
      exact ⟨⟨⟨hv.pending, hv.sessions, hc, hv.authentic⟩, .inr ⟨_, rfl, rfl, nofun⟩⟩,
        List.mem_cons_self⟩
  | getSession token =>
    obtain ⟨rfl, rfl⟩ := Prod.mk.inj (Option.some.inj h)
    exact leaves_getSession hv a.now token
  | removeSession token =>
    obtain ⟨-, rfl⟩ := Prod.mk.inj (Option.some.inj h)
    exact ⟨leaves_removeSession hv token, trivial⟩
  | sweepSessions =>
    obtain ⟨-, rfl⟩ := Prod.mk.inj (Option.some.inj h)
    exact ⟨leaves_of_rows hv rfl (fun _ _ h ↦ h) fun _ _ h ↦ (Option.filter_eq_some_iff.mp h).1,
      trivial⟩
  | createSession | enter => exact hc.elim
  | cached | fetchDocument | cacheDocument | exchange | fetchKeys | userinfo =>
    obtain ⟨-, rfl⟩ := Prod.mk.inj (Option.some.inj h)
    exact ⟨leaves_of_rows hv rfl (fun _ _ h ↦ h) fun _ _ h ↦ h, trivial⟩

/-! ## Rules for programs -/

variable {α : Type} {Q : α → World ι → Prop}

/-- A specification of a request, which may raise anything. -/
abbrev Ends (env : Env) (i : Tid) (p : Op ι α) (Q : α → World ι → Prop) (w : World ι) : Prop :=
  p.Safe (shared env i) Q (fun _ _ ↦ True) w

/-- The rule for a quiet call: its reply is used together with what it tells. -/
theorem safe_call {c : Call ι} (hc : c.Quiet) {k : c.Ret → Op ι α} (hw : Knows env i es w)
    (hk : ∀ r v, Knows env i es v → c.Told i v.log r →
      Ends env i (k r) Q v) : Ends env i (invoke c >>= k) Q w := by
  intro u hrely r v hr
  obtain ⟨hu, hkeep⟩ := hrely hw.sound
  have hknows := hw.keeps hu hkeep
  obtain ⟨hleaves, htold⟩ := leaves_of_quiet hu hc hr
  exact ⟨fun _ ↦ ⟨hleaves.sound, fun j hj ↦ hleaves.keeps hj⟩, hk r v (hleaves.knows hknows) htold⟩

/-- A program of quiet calls leaves a request what it knows. -/
theorem safe_of_quiet {p : Op ι α} (h : p.Uses Call.Quiet) (hw : Knows env i es w) :
    Ends env i p (fun _ ↦ Knows env i es) w := by
  refine (h.safe ?_ ?_ hw).mono (fun _ _ h ↦ h) fun _ _ _ ↦ trivial
  · intro u v hu hrely
    obtain ⟨hv, hkeep⟩ := hrely hu.sound
    exact hu.keeps hv hkeep
  · intro u c r v hc hu hr
    obtain ⟨hleaves, -⟩ := leaves_of_quiet hu.sound hc hr
    exact ⟨fun _ ↦ ⟨hleaves.sound, fun j hj ↦ hleaves.keeps hj⟩, hleaves.knows hu⟩

/-- A program of quiet calls, and what comes after it. -/
theorem safe_quiet_bind {β : Type} {p : Op ι β} {k : β → Op ι α} (h : p.Uses Call.Quiet)
    (hw : Knows env i es w)
    (hk : ∀ b v, Knows env i es v → Ends env i (k b) Q v) : Ends env i (p >>= k) Q w := by
  rw [Ends, Prog.safe_bind]
  exact (safe_of_quiet h hw).mono hk fun _ _ h ↦ h

theorem safe_quiet {p : Op ι α} (h : p.Uses Call.Quiet) (hw : Knows env i es w) :
    Ends env i p (fun _ _ ↦ True) w :=
  (safe_of_quiet h hw).mono (fun _ _ _ ↦ trivial) fun _ _ h ↦ h

/-- The creation of a session, by a request that knows of its login. -/
theorem safe_createSession {accessToken refreshToken : String} {expiresIn : ℚ} {user : UserInfo ι}
    {k : String → Op ι α} (hw : Knows env i es w) {state nonce : String} {now : ℚ}
    {algorithms : List String} {claims : Claims} (hredeemed : .redeemed i state nonce now ∈ es)
    (hverified : .verified i algorithms claims ∈ es) (hnonce : claims.nonce = some nonce)
    (hsub : claims.sub = user.sub)
    (hk : ∀ token v, Ends env i (k token) Q v) :
    Ends env i (invoke (.createSession accessToken refreshToken expiresIn user) >>= k) Q w := by
  intro u hrely r v hr
  obtain ⟨hu, hkeep⟩ := hrely hw.sound
  have hknows := hw.keeps hu hkeep
  refine ⟨fun _ ↦ ?_, hk r v⟩
  obtain ⟨-, a, h⟩ := hr
  rw [Call.exec] at h
  split_ifs at h
  obtain ⟨-, rfl⟩ := Prod.mk.inj (Option.some.inj h)
  refine ⟨⟨hu.pending, fun token session hrow ↦ ?_, ⟨⟨state, nonce, now, algorithms, claims,
    hknows.past _ hredeemed, hknows.past _ hverified, hnonce, hsub⟩, hknows.first⟩, hu.authentic⟩,
    fun j hj ↦ ⟨[_], rfl, fun e he ↦ ?_⟩⟩
  · change Function.update _ _ _ _ = _ at hrow
    rw [World.createSession, liveOf]
    rcases eq_or_ne token a.token with rfl | hne
    · rw [Function.update_self] at hrow
      rwa [if_pos rfl]
    · rw [Function.update_of_ne hne] at hrow
      rw [if_neg hne.symm]
      exact hu.sessions token session hrow
  · rw [List.mem_singleton.mp he]
    exact hj.symm

/-- The entry of an endpoint, by a request that may. -/
theorem safe_enter {request : Request} {k : Unit → Op ι α} (hw : Knows env i es w)
    (hcsrf : csrfAllows env request = true)
    (hmay : env.authEnabled = false ∨ isPublic request.path = true ∨
      ∃ token session now, request.token = some token ∧ .loaded i token session now ∈ es)
    (hk : ∀ v, Knows env i es v → Ends env i (k ()) Q v) :
    Ends env i (invoke (.enter request) >>= k) Q w := by
  intro u hrely _ v hr
  obtain ⟨hu, hkeep⟩ := hrely hw.sound
  have hknows := hw.keeps hu hkeep
  obtain ⟨-, a, h⟩ := hr
  obtain ⟨-, rfl⟩ := Prod.mk.inj (Option.some.inj h)
  have hgrounded : Grounded env u.log (.entered i request) := by
    refine ⟨hcsrf, hmay.imp_right (Or.imp_right ?_)⟩
    rintro ⟨token, session, now, htoken, hloaded⟩
    exact ⟨token, session, now, htoken, hknows.past _ hloaded⟩
  have hsound : Sound env { u with log := .entered i request :: u.log } :=
    ⟨hu.pending, hu.sessions, hgrounded, hu.authentic⟩
  refine ⟨fun _ ↦ ⟨hsound, fun j hj ↦ ⟨[_], rfl, fun e he ↦ ?_⟩⟩, hk _ ⟨hsound, ?_, ?_⟩⟩
  · rw [List.mem_singleton.mp he]
    exact hj.symm
  · exact fun e he ↦ List.mem_cons_of_mem _ (hknows.past e he)
  · exact fun token session hmem ↦
      hknows.first token session ((List.mem_cons.mp hmem).resolve_left nofun)

theorem Knows.learn (hw : Knows env i es w) {e : Event ι} (he : e ∈ w.log) :
    Knows env i (e :: es) w :=
  ⟨hw.sound, List.forall_mem_cons.mpr ⟨he, hw.past⟩, hw.first⟩

/-! ## The programs -/

theorem discover_uses (providerUrl : String) :
    (discover providerUrl : Op ι Document).Uses Call.Quiet := by
  refine .bind (Prog.uses_call.mpr trivial) fun found ↦ ?_
  match found with
  | some document => trivial
  | none =>
    refine .bind (Prog.uses_call.mpr trivial) fun reply ↦ ?_
    match reply with
    | .error text => trivial
    | .ok (status, document) =>
      refine .ite (fun _ ↦ trivial) fun _ ↦ ?_
      match document with
      | none => trivial
      | some document =>
        exact .ite (fun _ ↦ trivial) fun _ ↦ .bind (Prog.uses_call.mpr trivial) fun _ ↦ trivial

theorem signing_ne_none (document : Document) : ∀ alg ∈ document.signing, alg.toLower ≠ "none" :=
  fun _ halg ↦ of_decide_eq_true (List.mem_filter.mp halg).2

/-- A verified token carries the nonce of the login. -/
theorem verifyIdToken_safe (idToken : String) (document : Document) {nonce : String}
    (hnonce : nonce ≠ "") (hw : Knows env i es w) :
    Ends env i (verifyIdToken env idToken document nonce) (fun claims v ↦
      claims.nonce = some nonce ∧ ∃ algorithms, Knows env i (.verified i algorithms claims :: es) v)
      w := by
  rw [verifyIdToken]
  split_ifs
  · trivial
  refine safe_call (by trivial) hw fun keys v hv _ ↦ ?_
  match keys with
  | .error text => trivial
  | .ok keys =>
    refine safe_call (by exact signing_ne_none document) hv fun decoded u hu htold ↦ ?_
    match decoded with
    | .error (.jose text) => trivial
    | .error (.other text) => trivial
    | .ok claims =>
      dsimp only
      split_ifs with hclaims
      · trivial
      · exact ⟨not_not.mp fun hne ↦ hclaims ⟨hnonce, hne⟩, _, hu.learn htold⟩

theorem login_uses (request : Request) : (login env request : Op ι _).Uses Call.Quiet := by
  refine .ite (fun _ ↦ ?_) fun _ ↦ trivial
  refine .bind (discover_uses env.providerUrl) fun document ↦ .ite (fun _ ↦ trivial) fun _ ↦ ?_
  exact .bind (Prog.uses_call.mpr trivial) fun _ ↦ trivial

theorem userOf_uses (document : Document) (accessToken : String) (claims : Claims) :
    (userOf document accessToken claims : Op ι _).Uses Call.Quiet := by
  refine .ite (fun _ ↦ trivial) fun _ ↦ .bind (Prog.uses_call.mpr trivial) fun reply ↦ ?_
  cases reply <;> trivial

/-- What is published does not rename the subject. -/
theorem userOf_yields (document : Document) (accessToken : String) (claims : Claims) :
    (userOf document accessToken claims : Op ι _).Yields fun user ↦ claims.sub = user.sub := by
  rw [userOf]
  split_ifs
  · rfl
  · intro reply
    match reply with
    | .error text => trivial
    | .ok (status, published) => rfl

theorem logout_uses (request : Request) : (logout request : Op ι _).Uses Call.Quiet := by
  rw [logout]
  split
  · trivial
  · exact .ite (fun _ ↦ trivial) fun _ ↦ .bind (Prog.uses_call.mpr trivial) fun _ ↦ trivial

theorem getMe_uses (request : Request) : (getMe env request : Op ι _).Uses Call.Quiet := by
  rw [getMe]
  split
  · trivial
  · refine .ite (fun _ ↦ trivial) fun _ ↦ .bind (Prog.uses_call.mpr trivial) fun session ↦ ?_
    cases session <;> trivial

/-- The end of a login that has redeemed its state. -/
theorem establish_safe (request : Request) (document : Document) (data : TokenData)
    {state nonce : String} {now : ℚ} (hnonce : nonce ≠ "") (hw : Knows env i es w)
    (hredeemed : .redeemed i state nonce now ∈ es) :
    Ends env i (establish env request document nonce data) (fun _ _ ↦ True) w := by
  rw [establish]
  split_ifs
  · trivial
  rw [Ends, Prog.safe_bind]
  refine (verifyIdToken_safe data.idToken document hnonce hw).mono ?_ fun _ _ h ↦ h
  rintro claims v ⟨hclaims, algorithms, hv⟩
  rw [Prog.safe_bind]
  refine ((userOf_yields document data.accessToken claims).safe
    (safe_of_quiet (userOf_uses document data.accessToken claims) hv)).mono ?_ fun _ _ h ↦ h
  rintro user u ⟨hsub, hu⟩
  refine safe_call (by trivial) hu fun _ t ht _ ↦ ?_
  exact safe_createSession ht (List.mem_cons_of_mem _ hredeemed) List.mem_cons_self hclaims hsub
    fun _ _ ↦ trivial

theorem callback_safe (request : Request) (code state : String) (hw : Knows env i es w) :
    Ends env i (callback env request code state) (fun _ _ ↦ True) w := by
  rw [callback]
  split_ifs
  swap
  · trivial
  refine safe_call (by trivial) hw fun redeemed v hv htold ↦ ?_
  match redeemed with
  | none => trivial
  | some nonce =>
    obtain ⟨now, hmem⟩ := htold
    have hnonce : nonce ≠ "" := nonce_of_redeemed hv.sound.authentic hmem
    refine safe_quiet_bind (discover_uses env.providerUrl) (hv.learn hmem) fun document u hu ↦ ?_
    split_ifs
    · trivial
    refine safe_call (by trivial) hu fun reply t ht _ ↦ ?_
    match reply with
    | .error text => trivial
    | .ok (status, data) =>
      dsimp only
      split_ifs
      · trivial
      · exact establish_safe request document data hnonce ht List.mem_cons_self

theorem route_safe (request : Request) (hw : Knows env i es w)
    (hcsrf : csrfAllows env request = true)
    (hmay : env.authEnabled = false ∨ isPublic request.path = true ∨
      ∃ token session now, request.token = some token ∧ .loaded i token session now ∈ es) :
    Ends env i (route env request) (fun _ _ ↦ True) w := by
  refine safe_enter hw hcsrf hmay fun v hv ↦ ?_
  split_ifs
  · exact safe_quiet (login_uses request) hv
  · split
    · trivial
    next code state _ => exact callback_safe request code state hv
  · exact safe_quiet (logout_uses request) hv
  · exact safe_quiet (getMe_uses request) hv
  · trivial

theorem authenticate_safe (request : Request) (hw : Knows env i es w)
    (hcsrf : csrfAllows env request = true) :
    Ends env i (authenticate env request) (fun _ _ ↦ True) w := by
  rw [authenticate]
  split_ifs with hopen
  · exact route_safe request hw hcsrf (hopen.imp_right .inl)
  split
  next => trivial
  next token htoken =>
    split_ifs
    · trivial
    refine safe_call (by trivial) hw fun session v hv htold ↦ ?_
    match session with
    | none => trivial
    | some session =>
      obtain ⟨now, hmem⟩ := htold
      exact route_safe request (hv.learn hmem) hcsrf
        (.inr (.inr ⟨token, session, now, htoken, List.mem_cons_self⟩))

theorem handle_safe (request : Request) (hw : Knows env i es w) :
    Ends env i (handle env request) (fun _ _ ↦ True) w := by
  rw [handle]
  split_ifs with hcsrf
  · exact authenticate_safe request hw hcsrf
  · trivial

end

/-! ## Every run -/

theorem sound_of_reachable {env : Env} {requests : Tid → Request}
    {s : Threads Tid (@Call.Ret ι) HttpError (Response ι) (World ι)}
    (h : (system env requests).Reachable Guard.free s) : Sound env s.world := by
  obtain ⟨s₀, ⟨hpool, hpending, hsessions, -, hlog⟩, hsteps⟩ := h
  have hsound : Sound env s₀.world := by
    constructor
    · intro state entry hentry
      rw [hpending] at hentry
      cases hentry
    · intro token session hrow
      rw [hsessions] at hrow
      cases hrow
    · rw [hlog]
      trivial
  have hsafe : ∀ i, (s₀.pool i).Safe (shared env i) (fun _ _ ↦ True) (fun _ _ ↦ True) s₀.world := by
    intro i
    rw [hpool]
    have hknows : Knows env i [] s₀.world := ⟨hsound, nofun, fun token session hmem ↦ by
      rw [hlog] at hmem
      cases hmem⟩
    exact handle_safe (requests i) hknows
  have hfree := hsteps.mono (H := Threads.stepGuard fun _ _ _ ↦ True) fun s a _ ↦ by
    unfold Threads.stepGuard
    split <;> trivial
  exact (Threads.Poised.sharing_steps (compatible_shared env) hfree hsound hsafe).2

/-- **Every history is authentic.** However requests, logins, callbacks, logouts and the provider's
answers interleave: a state is redeemed once, within its time; a session is created only by a
request that has redeemed a state and holds a verified token with the nonce of that state, for the
subject of that token; the store answers only with sessions that are live; and no endpoint is
entered across origins, or, if it is protected, without such a session. -/
theorem authentic {env : Env} {requests : Tid → Request}
    {s : Threads Tid (@Call.Ret ι) HttpError (Response ι) (World ι)}
    (h : (system env requests).Reachable Guard.free s) : Authentic env s.world.log :=
  (sound_of_reachable h).authentic

/-! ## A login -/

/-- A server with a provider. -/
def guarded : Env where
  authVariable := some "true"
  providerUrl := "https://id"
  clientId := "spark"
  clientSecret := "secret"
  externalUrl := ""
  corsAllowedOrigins := []

/-- A login, its callback, and requests with the cookie. -/
def browsed : Tid → Request
  | 0 => { method := "GET", path := "/auth/login", scheme := "http", netloc := "spark" }
  | 1 => { method := "GET", path := "/auth/callback", scheme := "http", netloc := "spark"
           query := some ("code", "state") }
  | _ => { method := "GET", path := "/api", scheme := "http", netloc := "spark"
           token := some "cookie" }

/-- A provider that logs one subject in. -/
def provided : Answer Unit where
  document := some { authorizationEndpoint := "https://id/a", tokenEndpoint := "https://id/t"
                     jwksUri := "https://id/k" }
  data := { idToken := "jwt" }
  claims := .ok { sub := "me", nonce := some "nonce" }

/-- The login and the callback, and one request more. -/
def oneLogin : List (Tid × Answer Unit) :=
  List.replicate 5 (0, { provided with token := "state" }) ++
    List.replicate 8 (1, { provided with token := "cookie" }) ++
    List.replicate 2 (2, provided)

theorem authentic_login : ∃ s, (system guarded browsed).run
      ⟨fun i ↦ handle guarded (browsed i), {}⟩ oneLogin = some s ∧
    s.world.log.head? = some (.entered 2 (browsed 2)) ∧ Authentic guarded s.world.log := by
  obtain ⟨s, hs, hlog⟩ := (Option.any_eq_true _ _).mp (show ((system guarded browsed).run
      ⟨fun i ↦ handle guarded (browsed i), {}⟩ oneLogin).any
        (fun s ↦ decide (s.world.log.head? = some (.entered 2 (browsed 2)))) = true
    by decide +kernel)
  exact ⟨s, hs, of_decide_eq_true hlog,
    authentic ⟨_, ⟨rfl, rfl, rfl, rfl, rfl⟩, System.steps_of_run hs⟩⟩

end SparkPulse.Auth
