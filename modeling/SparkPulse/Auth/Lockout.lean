import SparkPulse.Auth.Authentic

/-!
# Nobody without the variable

`_oidc_configured` compares with `true` what `str` makes of a Boolean, which is `True`. So an
operator who turns authentication on in the settings only, where `config.auth_enabled` ignores case,
has a server that refuses everyone and logs nobody in.
-/

namespace SparkPulse.Auth

open Program Transition

variable {ι : Type}

/-! ## Accounting backwards -/

section
variable {env : Env} {log : List (Event ι)}

theorem mem_of_openOf {state : String} {entry : ℚ × String} (h : openOf state log = some entry) :
    ∃ i, .issued i state entry.2 entry.1 ∈ log := by
  induction log with
  | nil => cases h
  | cons e log ih =>
    have hrest (h : openOf state log = some entry) :
        ∃ i, .issued i state entry.2 entry.1 ∈ e :: log := by
      obtain ⟨i, hmem⟩ := ih h
      exact ⟨i, List.mem_cons_of_mem e hmem⟩
    cases e with
    | issued i s nonce minted =>
      rw [openOf] at h
      split_ifs at h with hs
      · rw [← Option.some.inj h, ← hs]
        exact ⟨i, List.mem_cons_self⟩
      · exact hrest h
    | redeemed i s nonce now =>
      rw [openOf] at h
      split_ifs at h
      exact hrest h
    | verified | created | removed | loaded | missed | entered => exact hrest h

theorem mem_of_liveOf {token : String} {session : Session ι} (h : liveOf token log = some session) :
    ∃ i, .created i token session ∈ log := by
  induction log with
  | nil => cases h
  | cons e log ih =>
    have hrest (h : liveOf token log = some session) :
        ∃ i, .created i token session ∈ e :: log := by
      obtain ⟨i, hmem⟩ := ih h
      exact ⟨i, List.mem_cons_of_mem e hmem⟩
    cases e with
    | created i t row =>
      rw [liveOf] at h
      split_ifs at h with ht
      · rw [← Option.some.inj h, ← ht]
        exact ⟨i, List.mem_cons_self⟩
      · exact hrest h
    | removed i t =>
      rw [liveOf] at h
      split_ifs at h
      exact hrest h
    | issued | redeemed | verified | loaded | missed | entered => exact hrest h

/-- Behind every protected endpoint that is entered there is a state that was issued. -/
theorem issued_of_entered (h : Authentic env log) (henabled : env.authEnabled = true) {i : Tid}
    {request : Request} (hmem : .entered i request ∈ log) (hprotected : isPublic request.path = false) :
    ∃ j state nonce minted, .issued j state nonce minted ∈ log := by
  obtain ⟨past, hpast, -, hmay⟩ := h.grounded hmem
  rw [henabled, hprotected] at hmay
  obtain ⟨token, session, now, -, hloaded⟩ :=
    (hmay.resolve_left (by simp)).resolve_left (by simp)
  obtain ⟨past', hpast', hlive, -⟩ := h.grounded (hpast.subset hloaded)
  obtain ⟨j, hcreated⟩ := mem_of_liveOf hlive
  obtain ⟨past, hpast, ⟨state, nonce, now, _, _, hredeemed, -⟩, -⟩ :=
    h.grounded (hpast'.subset hcreated)
  obtain ⟨past', hpast', minted, hopen, -⟩ := h.grounded (hpast.subset hredeemed)
  obtain ⟨k, hissued⟩ := mem_of_openOf hopen
  exact ⟨k, state, nonce, minted, hpast'.subset hissued⟩

/-! ## What is not configured -/

/-- No login has been started. -/
def Unissued (w : World ι) : Prop := ∀ i state nonce minted, .issued i state nonce minted ∉ w.log

theorem unissued_of_log {v w : World ι} (hv : Unissued v)
    (h : w.log = v.log ∨ ∃ e, w.log = e :: v.log ∧
      ∀ i state nonce minted, e ≠ .issued i state nonce minted) : Unissued w := by
  intro i state nonce minted hmem
  rcases h with hlog | ⟨e, hlog, hne⟩
  · exact hv i state nonce minted (hlog ▸ hmem)
  · rw [hlog] at hmem
    rcases List.mem_cons.mp hmem with heq | hmem
    · exact hne i state nonce minted heq.symm
    · exact hv i state nonce minted hmem

theorem unissued_of_performs {i : Tid} {v w : World ι} {c : Call ι} {r : c.Ret} (hv : Unissued v)
    (hc : c ≠ .issueState) (h : Threads.performs Call.exec (fun _ _ _ ↦ True) i v c r w) :
    Unissued w := by
  obtain ⟨-, a, h⟩ := h
  refine unissued_of_log hv ?_
  cases c with
  | issueState => exact absurd rfl hc
  | consumeState state =>
    obtain rfl := congrArg Prod.snd (Option.some.inj h)
    rw [World.consumeState]
    split
    · exact .inl rfl
    · exact .inr ⟨_, rfl, fun _ _ _ _ heq ↦ by cases heq⟩
  | decode =>
    rw [Call.exec] at h
    split at h
    · obtain rfl := congrArg Prod.snd (Option.some.inj h)
      exact .inl rfl
    · obtain rfl := congrArg Prod.snd (Option.some.inj h)
      exact .inr ⟨_, rfl, fun _ _ _ _ heq ↦ by cases heq⟩
  | getSession token =>
    obtain rfl := congrArg Prod.snd (Option.some.inj h)
    rw [World.getSession]
    split
    · exact .inr ⟨_, rfl, fun _ _ _ _ heq ↦ by cases heq⟩
    · split_ifs <;> exact .inr ⟨_, rfl, fun _ _ _ _ heq ↦ by cases heq⟩
  | removeSession token =>
    obtain rfl := congrArg Prod.snd (Option.some.inj h)
    rw [World.removeSession]
    split
    · exact .inl rfl
    · exact .inr ⟨_, rfl, fun _ _ _ _ heq ↦ by cases heq⟩
  | createSession =>
    rw [Call.exec] at h
    split_ifs at h
    obtain rfl := congrArg Prod.snd (Option.some.inj h)
    exact .inr ⟨_, rfl, fun _ _ _ _ heq ↦ by cases heq⟩
  | enter =>
    obtain rfl := congrArg Prod.snd (Option.some.inj h)
    exact .inr ⟨_, rfl, fun _ _ _ _ heq ↦ by cases heq⟩
  | cached | fetchDocument | cacheDocument | exchange | fetchKeys | userinfo | sweepSessions =>
    obtain rfl := congrArg Prod.snd (Option.some.inj h)
    exact .inl rfl

theorem oidcConfigured_of_unset (hunset : env.authVariable = none) : env.oidcConfigured = false := by
  rw [Env.oidcConfigured, hunset]
  cases env.authEnabled <;> rfl

/-- A server that is not configured starts no login. -/
theorem handle_uses (hconfigured : env.oidcConfigured = false) (request : Request) :
    (handle env request : Op ι _).Uses (· ≠ .issueState) := by
  have hnot : ¬env.oidcConfigured = true := by
    rw [hconfigured]
    exact Bool.false_ne_true
  have hget {α : Type} {token : String} {k : Option (Session ι) → Op ι α}
      (hk : ∀ r, (k r).Uses (· ≠ .issueState)) :
      (invoke (.getSession token) >>= k).Uses (· ≠ .issueState) := ⟨by simp, hk⟩
  have hroute : (route env request : Op ι _).Uses (· ≠ .issueState) := by
    refine .bind (Prog.uses_call.mpr (by simp)) fun _ ↦ ?_
    refine .ite (fun _ ↦ ?_) fun _ ↦ .ite (fun _ ↦ ?_) fun _ ↦ .ite (fun _ ↦ ?_) fun _ ↦
      .ite (fun _ ↦ ?_) fun _ ↦ trivial
    · rw [login, if_neg hnot]
      trivial
    · split
      · trivial
      · rw [callback, if_neg hnot]
        trivial
    · rw [logout]
      split
      · trivial
      · exact .ite (fun _ ↦ trivial) fun _ ↦ .bind (Prog.uses_call.mpr (by simp)) fun _ ↦ trivial
    · rw [getMe]
      split
      · trivial
      · exact .ite (fun _ ↦ trivial) fun _ ↦ hget fun session ↦ by cases session <;> trivial
  refine .ite (fun _ ↦ .ite (fun _ ↦ hroute) fun _ ↦ ?_) fun _ ↦ trivial
  split
  · trivial
  · refine .ite (fun _ ↦ trivial) fun _ ↦ hget fun session ↦ ?_
    cases session with
    | none => trivial
    | some _ => exact hroute

end

/-! ## Every run -/

private def halfOpen : Env where
  authSetting := "True"
  providerUrl := "https://id"
  clientId := "spark"
  clientSecret := "secret"
  externalUrl := ""
  corsAllowedOrigins := []

private def turnedAway : Tid → Request
  | 0 => { method := "GET", path := "/auth/login", scheme := "http", netloc := "spark" }
  | _ => { method := "GET", path := "/api", scheme := "http", netloc := "spark"
           token := some "cookie" }

end SparkPulse.Auth
