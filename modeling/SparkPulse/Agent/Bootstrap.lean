import SparkPulse.Agent.Tokens

/-!
# Installs, their tokens and the listener for them

`_enrol` and `enrollment_window` of `agent/bootstrap.py`: every install mints a token, opens the
enrolment listener unless it is open, has the node enrol, closes the listener again if it was the
one to open it, has the token file shredded and revokes the token. Between two `await`s no other install
comes; at each of them any number may, and whatever is awaited may raise.

The node and its session only matter by when they answer and whether they raise. A listener that the
server no longer refers to is stopped whenever it is collected, or never.
-/

namespace SparkPulse.Agent.Bootstrap

open Transition (System Guard)

/-! ## Installs -/

/-- A listener: the one that there was before any install, or the one that an install started. -/
inductive Listener
  | before
  | of (run : ℕ)
  deriving DecidableEq, Repr

/-- Where in `_enrol` an install is. Its token is known by the secret, and `owner` says whether it
found the listener closed. -/
inductive Stage
  /-- It awaits the start of its listener. -/
  | starting (secret : String)
  /-- It delivers the token and the trust bundle to the node. -/
  | delivering (secret : String) (owner : Bool)
  /-- Its enrolment command is running. -/
  | enrolling (secret : String) (owner : Bool)
  /-- The command has ended, or something raised before. -/
  | leaving (secret : String) (owner : Bool)
  /-- It awaits the stop of the listener. -/
  | stopping (secret : String)
  /-- It awaits the shredding of the token file. -/
  | shredding (secret : String)
  /-- The token is revoked. -/
  | revoked (secret : String)
  /-- The install has ended. -/
  | ended (secret : String)
  deriving DecidableEq, Repr

namespace Stage

def secret : Stage → String
  | starting secret | delivering secret _ | enrolling secret _ | leaving secret _
  | stopping secret | shredding secret | revoked secret | ended secret => secret

/-- It has entered its window, and its enrolment command is not over. -/
def enrols : Stage → Bool
  | delivering .. | enrolling .. => true
  | _ => false

/-- It has entered its window and not left it. -/
def inWindow : Stage → Bool
  | delivering .. | enrolling .. | leaving .. => true
  | _ => false

/-- It is in a window that it opened. -/
def owns : Stage → Bool
  | delivering _ owner | enrolling _ owner | leaving _ owner => owner
  | _ => false

end Stage

/-- The control plane: its ledger with the clock, `_enrollment`, the listeners that serve, and the
installs. -/
structure Server where
  desk : Tokens.Desk
  enrollment : Option Listener := none
  listening : List Listener := []
  runs : ℕ → Option Stage := fun _ ↦ none

inductive Act
  /-- `_enrol` begins: a token is minted, and it is looked whether the listener is open. -/
  | begin (run : ℕ) (secret name nodeId : String) (now : ℤ)
  /-- The listener has started, or the start raised. -/
  | started (run : ℕ) (ok : Bool)
  /-- Everything is delivered and the enrolment command begins. -/
  | command (run : ℕ)
  /-- The enrolment command has ended, or it or a delivery raised. -/
  | over (run : ℕ)
  | leave (run : ℕ)
  | stopped (run : ℕ)
  /-- The shredding has ended, or it raised. -/
  | shredded (run : ℕ) (raised : Bool) (now : ℤ)
  | finish (run : ℕ)
  /-- Anything else that is done with the ledger. -/
  | ledger (act : Tokens.Act)
  | collect (listener : Listener)

/-! ## Steps -/

variable (hash : String → String)

/-- A secret is drawn anew. -/
def Fresh (secret : String) (d : Tokens.Desk) : Bool :=
  d.history.all fun e ↦ decide (hash e.secret ≠ hash secret)

namespace Server

variable (s : Server)

def set (run : ℕ) (stage : Stage) : Server :=
  { s with runs := Function.update s.runs run (some stage) }

/-- `ControlPlaneServer.stop_enrollment`, up to where it awaits. -/
def stopEnrollment : Server :=
  { s with enrollment := none, listening := s.listening.filter (some · ≠ s.enrollment) }

end Server

/-- `ControlPlaneServer.start_enrollment`, from where it awaits. -/
def Server.startEnrollment (s : Server) (run : ℕ) : Server :=
  { s with enrollment := some (.of run), listening := .of run :: s.listening }

/-- Anything else that is done with the ledger. -/
def Server.acts (s : Server) (act : Tokens.Act) : Option Server :=
  let done := (Tokens.next hash s.desk act).map fun desk ↦ { s with desk }
  match act with
  -- a restart ends the installs
  | .reload => none
  | .mint secret .. => if Fresh hash secret s.desk then done else none
  | _ => done

def next (s : Server) : Act → Option Server
  | .begin run secret name nodeId now =>
    if (s.runs run).isSome ∨ !Fresh hash secret s.desk then none
    else
      (Tokens.next hash s.desk (.mint secret name tokenTtlSeconds nodeId now)).map fun desk ↦
        { s.set run
          (if s.enrollment.isSome then .delivering secret false else .starting secret) with desk }
  | .started run ok =>
    match s.runs run with
    | some (.starting secret) =>
      some (if ok then (s.startEnrollment run).set run (.delivering secret true)
        else s.set run (.shredding secret))
    | _ => none
  | .command run =>
    match s.runs run with
    | some (.delivering secret owner) => some (s.set run (.enrolling secret owner))
    | _ => none
  | .over run =>
    match s.runs run with
    | some (.delivering secret owner) | some (.enrolling secret owner) =>
      some (s.set run (.leaving secret owner))
    | _ => none
  | .leave run =>
    match s.runs run with
    | some (.leaving secret owner) =>
      some (if owner then s.stopEnrollment.set run (.stopping secret)
        else s.set run (.shredding secret))
    | _ => none
  | .stopped run =>
    match s.runs run with
    | some (.stopping secret) => some (s.set run (.shredding secret))
    | _ => none
  | .shredded run raised now =>
    match s.runs run with
    | some (.shredding secret) =>
      if raised then some (s.set run (.ended secret))
      else (Tokens.next hash s.desk (.revoke secret now)).map fun desk ↦
        { s.set run (.revoked secret) with desk }
    | _ => none
  | .finish run =>
    match s.runs run with
    | some (.revoked secret) => some (s.set run (.ended secret))
    | _ => none
  | .ledger act => s.acts hash act
  | .collect listener =>
    if s.enrollment = some listener then none
    else some { s with listening := s.listening.filter (· ≠ listener) }

/-- A control plane with any ledger, on which no install was begun, and whose listener is open or
closed. -/
def system (openBefore : Bool) : System Server Act where
  init s := (∃ ledger clock, s.desk = { ledger, clock }) ∧ (∀ run, s.runs run = none) ∧
    s.enrollment = (if openBefore then some .before else none) ∧
      s.listening = s.enrollment.toList
  next := next hash

/-! ## What is promised -/

/-- Whoever has the secret may enrol with it. -/
def Redeemable (l : Ledger) (now : ℤ) (secret : String) : Prop :=
  ∃ minted id, (l.redeemToken hash true secret minted now).1 = .ok id

/-- The listener is open for every install from its entry into the window to the end of its
enrolment command, is closed when none is in its window, if it was closed before, and no token of an
install that has ended can be redeemed, now or later. -/
structure Upheld (openBefore : Bool) (s : Server) : Prop where
  open_of_enrols : ∀ run stage, s.runs run = some stage → stage.enrols = true → s.listening ≠ []
  closed : openBefore = false →
    (∀ run stage, s.runs run = some stage → stage.inWindow = false) → s.listening = []
  spent : ∀ run secret, s.runs run = some (.ended secret) →
    ∀ now ≥ s.desk.clock, ¬Redeemable hash s.desk.ledger now secret

/-- The condition: a listener starts only where there is none, nobody who opened the window leaves
it before the command of everybody else in it is over, and the shredding of a token file that can
still be redeemed does not raise, nor is it over when the clock reads zero. -/
def Orderly : Guard Server Act
  | s, .started _ ok => ok = true → s.enrollment = none
  | s, .leave run => ∀ secret, s.runs run = some (.leaving secret true) →
      ∀ other stage, s.runs other = some stage → stage.enrols = false
  | s, .shredded run raised now => ∀ secret, s.runs run = some (.shredding secret) →
      raised = false ∧ now ≠ 0 ∨ ¬Redeemable hash s.desk.ledger s.desk.clock secret
  | _, _ => True

section
variable {hash} {s t : Server} {run : ℕ} {stage : Stage} {secret key : String} {l : Ledger}
  {d d' : Tokens.Desk} {now now' : ℤ} {openBefore : Bool}

/-! ## Tokens that are dead -/

/-- The token is gone, used or expired. -/
def Dead (l : Ledger) (now : ℤ) (key : String) : Prop :=
  ∀ grant, l.state.tokens.lookup key = some grant → grant.usedAt ≠ 0 ∨ grant.expiresAt ≤ now

theorem not_redeemable_iff : ¬Redeemable hash l now secret ↔ Dead l now (hash secret) := by
  constructor
  · intro h grant hgrant
    by_contra hlive
    rw [not_or, not_not, Int.not_le] at hlive
    obtain ⟨hunused, hintime⟩ := hlive
    refine h ⟨"", grant.mints "", ?_⟩
    simp only [Ledger.redeemToken, hgrant]
    rw [if_neg (not_not.mpr hunused), if_neg (Int.not_le.mpr hintime)]
    rfl
  · rintro h ⟨minted, id, hok⟩
    rw [Ledger.redeemToken] at hok
    rcases hgrant : l.state.tokens.lookup (hash secret) with _ | grant <;> rw [hgrant] at hok
    · cases hok
    · simp only at hok
      split_ifs at hok with hused hexpired
      rcases h grant hgrant with hused' | hexpired'
      · exact hused hused'
      · exact hexpired hexpired'

theorem Dead.mono (h : Dead l now key) (hle : now ≤ now') : Dead l now' key :=
  fun grant hgrant ↦ (h grant hgrant).imp_right fun hexpired ↦ Int.le_trans hexpired hle

theorem Dead.of_lookup {l' : Ledger} (h : Dead l now key)
    (hlookup : ∀ grant, l'.state.tokens.lookup key = some grant →
      l.state.tokens.lookup key = some grant) : Dead l' now key :=
  fun grant hgrant ↦ h grant (hlookup grant hgrant)

/-- A token that is redeemed was not dead, so another one is. -/
theorem Dead.redeem (h : Dead l now key) (hle : now ≤ now') (minted : String) :
    Dead (l.redeemToken hash true secret minted now').2 now' key := by
  rw [Ledger.redeemToken]
  rcases hgrant : l.state.tokens.lookup (hash secret) with _ | grant
  · exact h.mono hle
  simp only
  split_ifs with hused hexpired
  · exact h.mono hle
  · exact h.mono hle
  · rw [Ledger.returning_snd]
    intro grant' hgrant'
    rw [Ledger.write_state] at hgrant'
    by_cases hkey : key = hash secret
    · rcases h grant (hkey ▸ hgrant) with hused' | hexpired'
      · exact absurd hused' hused
      · exact absurd (Int.le_trans hexpired' hle) hexpired
    · exact h.mono hle grant' ((AList.lookup_insert_ne hkey).symm.trans hgrant')

theorem Dead.revoke (h : Dead l now key) (hle : now ≤ now') :
    Dead (l.revokeToken hash true secret now').2 now' key := by
  rw [Ledger.revokeToken]
  rcases hgrant : l.state.tokens.lookup (hash secret) with _ | grant
  · exact h.mono hle
  simp only
  split_ifs with hused
  · exact h.mono hle
  · rw [Ledger.returning_snd]
    intro grant' hgrant'
    rw [Ledger.write_state] at hgrant'
    by_cases hkey : key = hash secret
    · subst hkey
      cases (AList.lookup_insert _).symm.trans hgrant'
      exact .inr (Int.le_trans ((h grant hgrant).resolve_left hused) hle)
    · exact h.mono hle grant' ((AList.lookup_insert_ne hkey).symm.trans hgrant')

/-- A revocation, when the clock does not read zero. -/
theorem dead_revoke (l : Ledger) (hnow : now ≠ 0) :
    Dead (l.revokeToken hash true secret now).2 now (hash secret) := by
  rw [Ledger.revokeToken]
  rcases hgrant : l.state.tokens.lookup (hash secret) with _ | grant
  · intro grant hgrant'
    cases hgrant.symm.trans hgrant'
  simp only
  split_ifs with hused
  · intro grant' hgrant'
    cases hgrant.symm.trans hgrant'
    exact .inl hused
  · rw [Ledger.returning_snd]
    intro grant' hgrant'
    rw [Ledger.write_state] at hgrant'
    cases (AList.lookup_insert _).symm.trans hgrant'
    exact .inl hnow

theorem Dead.sweep (h : Dead l now key) (hle : now ≤ now') :
    Dead (l.sweep true now').2 now' key := by
  rw [Ledger.sweep]
  split_ifs
  · exact h.mono hle
  · rw [Ledger.returning_snd, Ledger.save]
    refine (h.mono hle).of_lookup fun grant hgrant ↦ ?_
    rw [Ledger.write_state] at hgrant
    exact Tokens.lookup_of_sweepLocked hgrant

/-- A mint, of another token. -/
theorem Dead.mint (h : Dead l now key) (hle : now ≤ now') (hkey : hash secret ≠ key)
    (name nodeId : String) (ttl : ℤ) :
    Dead (l.mintToken hash true secret name ttl nodeId now').2 now' key := by
  rw [Ledger.mintToken, Ledger.returning_snd]
  refine (h.mono hle).of_lookup fun grant hgrant ↦ ?_
  rw [Ledger.write_state] at hgrant
  exact Tokens.lookup_of_sweepLocked ((AList.lookup_insert_ne hkey.symm).symm.trans hgrant)

/-- Nothing that is done with the ledger revives a token. -/
theorem Dead.next {act : Tokens.Act} (h : Dead d.ledger d.clock key)
    (hnext : Tokens.next hash d act = some d') (hreload : act ≠ .reload)
    (hkey : ∀ secret name ttl nodeId now, act = .mint secret name ttl nodeId now →
      hash secret ≠ key) : Dead d'.ledger d'.clock key := by
  rw [Tokens.next] at hnext
  split_ifs at hnext with hclock
  cases hnext
  rcases act with ⟨secret, name, ttl, nodeId, now⟩ | ⟨secret, minted, now⟩ | ⟨secret, now⟩ | now |
    ⟨id, fingerprint, facts⟩ | ⟨id, fingerprint, notAfter, facts, now⟩ | ⟨id, reason⟩ | id |
    ⟨id, now⟩ | _
  · exact h.mint (hclock now rfl) (hkey _ _ _ _ _ rfl) name nodeId ttl
  · exact h.redeem (hclock now rfl) minted
  · exact h.revoke (hclock now rfl)
  · exact h.sweep (hclock now rfl)
  · exact h.of_lookup fun _ hgrant ↦ Tokens.sameTokens_authorize.1 ▸ hgrant
  · refine (h.mono (hclock now rfl)).of_lookup fun _ hgrant ↦ ?_
    rwa [Tokens.Act.ledger, Ledger.recordIssue, Ledger.returning_snd, Ledger.write_state] at hgrant
  · exact h.of_lookup fun _ hgrant ↦ Tokens.sameTokens_deny.1 ▸ hgrant
  · refine h.of_lookup fun _ hgrant ↦ ?_
    rwa [Tokens.Act.ledger, Ledger.remove, Ledger.write_state] at hgrant
  · exact (h.mono (hclock now rfl)).of_lookup fun _ hgrant ↦ Tokens.sameTokens_noteSeen.1 ▸ hgrant
  · exact absurd rfl hreload

/-- What happened stays in the history, and the tokens there that are dead stay dead. -/
structure Carries (hash : String → String) (d d' : Tokens.Desk) : Prop where
  history : ∀ e ∈ d.history, e ∈ d'.history
  dead : ∀ e ∈ d.history, Dead d.ledger d.clock (hash e.secret) →
    Dead d'.ledger d'.clock (hash e.secret)

theorem Carries.refl : Carries hash d d := ⟨fun _ h ↦ h, fun _ _ h ↦ h⟩

theorem carries_of_next {act : Tokens.Act} (hnext : Tokens.next hash d act = some d')
    (hreload : act ≠ .reload)
    (hfresh : ∀ secret name ttl nodeId now, act = .mint secret name ttl nodeId now →
      Fresh hash secret d = true) : Carries hash d d' := by
  refine ⟨fun e he ↦ ?_, fun e he hdead ↦ hdead.next hnext hreload ?_⟩
  · rw [Tokens.next] at hnext
    split_ifs at hnext
    cases hnext
    exact List.mem_append_right _ he
  · intro secret name ttl nodeId now hmint hsame
    have hdrawn := List.all_eq_true.mp (hfresh _ _ _ _ _ hmint) e he
    rw [decide_eq_true_eq] at hdrawn
    exact hdrawn hsame.symm

/-! ## The invariant -/

/-- What is so between the steps of all installs: `_enrollment` is the listener that serves, and
whoever opened its window and is in it has that listener. -/
structure Sound (hash : String → String) (openBefore : Bool) (s : Server) : Prop where
  listening : s.listening = s.enrollment.toList
  owns : ∀ run stage, s.runs run = some stage → stage.owns = true → s.enrollment = some (.of run)
  owned : ∀ run, s.enrollment = some (.of run) → ∃ stage, s.runs run = some stage ∧
    stage.owns = true
  before : s.enrollment = some .before → openBefore = true
  enrols : ∀ run stage, s.runs run = some stage → stage.enrols = true → s.enrollment ≠ none
  drawn : ∀ run stage, s.runs run = some stage → ∃ e ∈ s.desk.history, e.secret = stage.secret
  spent : ∀ run secret, s.runs run = some (.revoked secret) ∨ s.runs run = some (.ended secret) →
    Dead s.desk.ledger s.desk.clock (hash secret)

theorem inWindow_of_owns (h : stage.owns = true) : stage.inWindow = true := by
  cases stage <;> first | rfl | cases h

theorem Sound.upheld (hs : Sound hash openBefore s) : Upheld hash openBefore s where
  open_of_enrols run stage hrun henrols hclosed := by
    refine hs.enrols run stage hrun henrols ?_
    rw [hs.listening] at hclosed
    exact Option.toList_eq_nil_iff.mp hclosed
  closed hbefore hout := by
    rw [hs.listening, Option.toList_eq_nil_iff]
    rcases henrollment : s.enrollment with _ | (_ | run)
    · rfl
    · cases hbefore.symm.trans (hs.before henrollment)
    · obtain ⟨stage, hrun, howns⟩ := hs.owned run henrollment
      cases (hout run stage hrun).symm.trans (inWindow_of_owns howns)
  spent run secret hrun now hnow :=
    not_redeemable_iff.mpr ((hs.spent run secret (.inr hrun)).mono hnow)

theorem runs_set (s : Server) (run run' : ℕ) (stage : Stage) :
    (s.set run stage).runs run' = if run' = run then some stage else s.runs run' :=
  Function.update_apply _ _ _ _

/-- What is so of the secrets of all installs, after a step of one of them. -/
theorem Sound.drawn_set (hs : Sound hash openBefore s) (hcarries : Carries hash s.desk d)
    (hdrawn : ∃ e ∈ d.history, e.secret = stage.secret) :
    ∀ run' stage', (s.set run stage).runs run' = some stage' →
      ∃ e ∈ d.history, e.secret = stage'.secret := by
  intro run' stage' hrun'
  rw [runs_set] at hrun'
  split_ifs at hrun' with h
  · cases hrun'
    exact hdrawn
  · obtain ⟨e, he, hsecret⟩ := hs.drawn run' stage' hrun'
    exact ⟨e, hcarries.history e he, hsecret⟩

theorem Sound.spent_set (hs : Sound hash openBefore s) (hcarries : Carries hash s.desk d)
    (hspent : ∀ secret, stage = .revoked secret ∨ stage = .ended secret →
      Dead d.ledger d.clock (hash secret)) :
    ∀ run' secret, (s.set run stage).runs run' = some (.revoked secret) ∨
      (s.set run stage).runs run' = some (.ended secret) → Dead d.ledger d.clock (hash secret) := by
  intro run' secret hrun'
  rw [runs_set] at hrun'
  split_ifs at hrun' with h
  · exact hspent secret (hrun'.imp Option.some_inj.mp Option.some_inj.mp)
  · obtain ⟨e, he, hsecret⟩ : ∃ e ∈ s.desk.history, e.secret = secret :=
      hrun'.elim (hs.drawn run' _) (hs.drawn run' _)
    exact hsecret ▸ hcarries.dead e he (hsecret ▸ hs.spent run' secret hrun')

/-- An install goes on, and the listeners are what they were. -/
theorem Sound.moves (hs : Sound hash openBefore s) (hcarries : Carries hash s.desk d)
    (howns : ∀ stage', s.runs run = some stage' → stage'.owns = true → stage.owns = true)
    (howns' : stage.owns = true → s.enrollment = some (.of run))
    (henrols : stage.enrols = true → s.enrollment ≠ none)
    (hdrawn : ∃ e ∈ d.history, e.secret = stage.secret)
    (hspent : ∀ secret, stage = .revoked secret ∨ stage = .ended secret →
      Dead d.ledger d.clock (hash secret)) :
    Sound hash openBefore { s.set run stage with desk := d } := by
  refine ⟨hs.listening, fun run' stage' hrun' ↦ ?_, fun run' hrun' ↦ ?_, hs.before,
    fun run' stage' hrun' ↦ ?_, hs.drawn_set hcarries hdrawn, hs.spent_set hcarries hspent⟩
  · replace hrun' := (runs_set s run run' stage).symm.trans hrun'
    split_ifs at hrun' with h
    · cases hrun'
      exact h ▸ howns'
    · exact hs.owns run' stage' hrun'
  · obtain ⟨stage', hstage', howned⟩ := hs.owned run' hrun'
    by_cases h : run' = run
    · subst h
      exact ⟨stage, (runs_set s _ _ _).trans (if_pos rfl), howns stage' hstage' howned⟩
    · exact ⟨stage', (runs_set s run run' stage).trans ((if_neg h).trans hstage'), howned⟩
  · replace hrun' := (runs_set s run run' stage).symm.trans hrun'
    split_ifs at hrun' with h
    · cases hrun'
      exact henrols
    · exact hs.enrols run' stage' hrun'

/-! ## Every step -/

/-- A listener has started where there was none. -/
theorem Sound.starts (hs : Sound hash openBefore s) (hrun : s.runs run = some (.starting secret))
    (hclosed : s.enrollment = none) :
    Sound hash openBefore ((s.startEnrollment run).set run (.delivering secret true)) := by
  have hcarries : Carries hash s.desk s.desk := .refl
  have hnobody (run' : ℕ) (stage' : Stage) (hrun' : s.runs run' = some stage') :
      stage'.owns = false := by
    rw [← Bool.not_eq_true]
    intro howns
    cases hclosed.symm.trans (hs.owns run' stage' hrun' howns)
  refine ⟨?_, fun run' stage' hrun' howns ↦ ?_, fun run' hrun' ↦ ?_, nofun, fun _ _ _ _ ↦ nofun,
    hs.drawn_set hcarries (hs.drawn run (.starting secret) hrun),
    hs.spent_set hcarries fun _ h ↦ ?_⟩
  · change Listener.of run :: s.listening = [.of run]
    rw [hs.listening, hclosed, Option.toList_none]
  · replace hrun' := (runs_set s run run' _).symm.trans hrun'
    split_ifs at hrun' with h
    · exact h ▸ rfl
    · cases (hnobody run' stage' hrun').symm.trans howns
  · cases hrun'
    exact ⟨_, (runs_set s _ _ _).trans (if_pos rfl), rfl⟩
  · rcases h with h | h <;> cases h

/-- The install that opened the window leaves it, when nobody enrols. -/
theorem Sound.leaves (hs : Sound hash openBefore s)
    (hrun : s.runs run = some (.leaving secret true))
    (hnobody : ∀ other stage, s.runs other = some stage → stage.enrols = false) :
    Sound hash openBefore (s.stopEnrollment.set run (.stopping secret)) := by
  have henrollment := hs.owns run _ hrun rfl
  have hcarries : Carries hash s.desk s.desk := .refl
  refine ⟨?_, fun run' stage' hrun' howns ↦ ?_, nofun, nofun, fun run' stage' hrun' henrols ↦ ?_,
    hs.drawn_set hcarries (hs.drawn run (.leaving secret true) hrun),
    hs.spent_set hcarries fun _ h ↦ ?_⟩
  · change s.listening.filter (some · ≠ s.enrollment) = []
    rw [hs.listening, henrollment]
    simp
  · replace hrun' := (runs_set s run run' _).symm.trans hrun'
    split_ifs at hrun' with h
    · cases hrun'
      cases howns
    · cases henrollment.symm.trans (hs.owns run' stage' hrun' howns)
      exact absurd rfl h
  · replace hrun' := (runs_set s run run' _).symm.trans hrun'
    split_ifs at hrun' with h
    · cases hrun'
      cases henrols
    · cases (hnobody run' stage' hrun').symm.trans henrols
  · rcases h with h | h <;> cases h

/-- Something else is done with the ledger. -/
theorem Sound.ledger (hs : Sound hash openBefore s) (hcarries : Carries hash s.desk d) :
    Sound hash openBefore { s with desk := d } where
  listening := hs.listening
  owns := hs.owns
  owned := hs.owned
  before := hs.before
  enrols := hs.enrols
  drawn run stage hrun := by
    obtain ⟨e, he, hsecret⟩ := hs.drawn run stage hrun
    exact ⟨e, hcarries.history e he, hsecret⟩
  spent run secret hrun := by
    obtain ⟨e, he, hsecret⟩ : ∃ e ∈ s.desk.history, e.secret = secret :=
      hrun.elim (hs.drawn run _) (hs.drawn run _)
    exact hsecret ▸ hcarries.dead e he (hsecret ▸ hs.spent run secret hrun)

/-- An install goes on that is not in a window, or stays in the one that it is in. -/
theorem Sound.goes {stage' : Stage} (hs : Sound hash openBefore s) (hrun : s.runs run = some stage)
    (hsecret : stage'.secret = stage.secret) (howns : stage'.owns = stage.owns)
    (henrols : stage'.enrols = true → stage.enrols = true)
    (hspent : ∀ secret, stage' = .revoked secret ∨ stage' = .ended secret →
      Dead s.desk.ledger s.desk.clock (hash secret)) :
    Sound hash openBefore (s.set run stage') := by
  refine hs.moves .refl (fun other hother h ↦ ?_) (fun h ↦ hs.owns run _ hrun (howns ▸ h))
    (fun h ↦ hs.enrols run _ hrun (henrols h)) (hsecret ▸ hs.drawn run _ hrun) hspent
  cases hrun.symm.trans hother
  exact howns.trans h

theorem Sound.begins (hs : Sound hash openBefore s) {name nodeId : String}
    (hrun : s.runs run = none) (hfresh : Fresh hash secret s.desk = true)
    (hmint : Tokens.next hash s.desk (.mint secret name tokenTtlSeconds nodeId now) = some d) :
    Sound hash openBefore { s.set run
      (if s.enrollment.isSome then .delivering secret false else .starting secret) with
        desk := d } := by
  have hcarries : Carries hash s.desk d := by
    refine carries_of_next hmint (fun h ↦ by cases h) fun _ _ _ _ _ h ↦ ?_
    cases h
    exact hfresh
  have hminted : ∃ e ∈ d.history, e.secret = secret := by
    rw [Tokens.next] at hmint
    split_ifs at hmint
    cases hmint
    exact ⟨_, List.mem_cons_self, rfl⟩
  have hnone (stage' : Stage) (h : s.runs run = some stage') : False := by
    cases hrun.symm.trans h
  split_ifs with hopen
  · refine hs.moves hcarries (fun _ h ↦ (hnone _ h).elim) (fun h ↦ by cases h)
      (fun _ hclosed ↦ ?_) hminted fun _ h ↦ ?_
    · rw [hclosed] at hopen
      cases hopen
    · rcases h with h | h <;> cases h
  · refine hs.moves hcarries (fun _ h ↦ (hnone _ h).elim) (fun h ↦ by cases h)
      (fun h ↦ by cases h) hminted fun _ h ↦ ?_
    rcases h with h | h <;> cases h

theorem dead_of_next_revoke
    (hrevoke : Tokens.next hash d (.revoke secret now) = some d') (hnow : now ≠ 0) :
    Dead d'.ledger d'.clock (hash secret) := by
  rw [Tokens.next] at hrevoke
  split_ifs at hrevoke
  cases hrevoke
  exact dead_revoke d.ledger hnow

/-- The token is revoked. -/
theorem Sound.revokes (hs : Sound hash openBefore s) (hrun : s.runs run = some (.shredding secret))
    (hrevoke : Tokens.next hash s.desk (.revoke secret now) = some d)
    (hdead : Dead d.ledger d.clock (hash secret)) :
    Sound hash openBefore { s.set run (.revoked secret) with desk := d } := by
  have hcarries : Carries hash s.desk d := carries_of_next hrevoke nofun nofun
  obtain ⟨e, he, hsecret⟩ := hs.drawn run (.shredding secret) hrun
  refine hs.moves hcarries (fun _ h howns ↦ ?_) nofun nofun ⟨e, hcarries.history e he, hsecret⟩
    fun _ h ↦ ?_
  · cases hrun.symm.trans h
    cases howns
  · rcases h with h | h <;> cases h
    exact hdead

theorem Sound.acts {act : Tokens.Act} (hs : Sound hash openBefore s)
    (hacts : s.acts hash act = some t) : Sound hash openBefore t := by
  have hdone (hreload : act ≠ .reload) (hfresh : ∀ secret name ttl nodeId now,
      act = .mint secret name ttl nodeId now → Fresh hash secret s.desk = true)
      (hnext : (Tokens.next hash s.desk act).map (fun desk ↦ { s with desk }) = some t) :
      Sound hash openBefore t := by
    obtain ⟨d, hd, rfl⟩ := Option.map_eq_some_iff.mp hnext
    exact hs.ledger (carries_of_next hd hreload hfresh)
  rcases act
  case reload => cases hacts
  case mint secret name ttl nodeId now =>
    rw [Server.acts] at hacts
    obtain ⟨hfresh, hacts⟩ := Option.ite_none_right_eq_some.mp hacts
    refine hdone nofun ?_ hacts
    rintro _ _ _ _ _ ⟨⟩
    exact hfresh
  all_goals exact hdone nofun nofun hacts

theorem Sound.next {act : Act} (hs : Sound hash openBefore s) (horderly : Orderly hash s act)
    (hnext : next hash s act = some t) : Sound hash openBefore t := by
  rcases act with ⟨run, secret, name, nodeId, now⟩ | ⟨run, ok⟩ | run | run | run | run |
    ⟨run, raised, now⟩ | run | act | listener
  · rw [Bootstrap.next] at hnext
    obtain ⟨hbusy, hnext⟩ := Option.ite_none_left_eq_some.mp hnext
    obtain ⟨d, hmint, rfl⟩ := Option.map_eq_some_iff.mp hnext
    rw [not_or, Option.not_isSome_iff_eq_none, Bool.not_eq_true, Bool.not_eq_false'] at hbusy
    exact hs.begins hbusy.1 hbusy.2 hmint
  · rw [Bootstrap.next] at hnext
    split at hnext
    · rename_i secret hrun
      cases hnext
      rcases ok
      · exact hs.goes hrun rfl rfl nofun nofun
      · exact hs.starts hrun (horderly rfl)
    · cases hnext
  · rw [Bootstrap.next] at hnext
    split at hnext
    · rename_i hrun
      cases hnext
      exact hs.goes hrun rfl rfl (fun _ ↦ rfl) nofun
    · cases hnext
  · rw [Bootstrap.next] at hnext
    split at hnext
    · rename_i hrun
      cases hnext
      exact hs.goes hrun rfl rfl nofun nofun
    · rename_i hrun
      cases hnext
      exact hs.goes hrun rfl rfl nofun nofun
    · cases hnext
  · rw [Bootstrap.next] at hnext
    split at hnext
    · rename_i secret owner hrun
      cases hnext
      rcases owner
      · exact hs.goes hrun rfl rfl nofun nofun
      · exact hs.leaves hrun (horderly secret hrun)
    · cases hnext
  · rw [Bootstrap.next] at hnext
    split at hnext
    · rename_i hrun
      cases hnext
      exact hs.goes hrun rfl rfl nofun nofun
    · cases hnext
  · rw [Bootstrap.next] at hnext
    split at hnext
    · rename_i secret hrun
      rcases horderly secret hrun with ⟨rfl, hnow⟩ | hspent
      · rw [if_neg Bool.false_ne_true] at hnext
        obtain ⟨d, hrevoke, rfl⟩ := Option.map_eq_some_iff.mp hnext
        exact hs.revokes hrun hrevoke (dead_of_next_revoke hrevoke hnow)
      · rw [not_redeemable_iff] at hspent
        rcases raised
        · rw [if_neg Bool.false_ne_true] at hnext
          obtain ⟨d, hrevoke, rfl⟩ := Option.map_eq_some_iff.mp hnext
          exact hs.revokes hrun hrevoke (hspent.next hrevoke nofun nofun)
        · cases hnext
          refine hs.goes hrun rfl rfl nofun fun secret' h ↦ ?_
          rcases h with h | h <;> cases h
          exact hspent
    · cases hnext
  · rw [Bootstrap.next] at hnext
    split at hnext
    · rename_i secret hrun
      cases hnext
      refine hs.goes hrun rfl rfl nofun fun secret' h ↦ ?_
      rcases h with h | h <;> cases h
      exact hs.spent run secret (.inl hrun)
    · cases hnext
  · exact hs.acts hnext
  · rw [Bootstrap.next] at hnext
    obtain ⟨hunknown, hnext⟩ := Option.ite_none_left_eq_some.mp hnext
    cases hnext
    refine ⟨?_, hs.owns, hs.owned, hs.before, hs.enrols, hs.drawn, hs.spent⟩
    change s.listening.filter (· ≠ listener) = s.enrollment.toList
    rw [hs.listening, List.filter_eq_self]
    rintro _ hmem
    rw [Option.mem_toList] at hmem
    exact decide_eq_true fun h ↦ hunknown (h ▸ hmem)

theorem sound_of_init (h : (system hash openBefore).init s) : Sound hash openBefore s := by
  obtain ⟨-, hruns, henrollment, hlistening⟩ := h
  have hnone {run : ℕ} {stage : Stage} (hrun : s.runs run = some stage) : False := by
    cases (hruns run).symm.trans hrun
  refine ⟨hlistening, fun _ _ h ↦ (hnone h).elim, fun run h ↦ ?_, fun h ↦ ?_,
    fun _ _ h ↦ (hnone h).elim, fun _ _ h ↦ (hnone h).elim,
    fun _ _ h ↦ (h.elim hnone hnone).elim⟩
  · rw [henrollment] at h
    split_ifs at h
    cases h
  · rw [henrollment] at h
    split_ifs at h with hbefore
    exact hbefore

/-- **The credentials of an install live as long as the install, in every run that is orderly.** The
listener is open for everyone who enrols and is closed again when nobody is left in a window, and
what was minted for an install cannot be redeemed when that has ended. -/
theorem upheld_of_orderly (h : (system hash openBefore).Reachable (Orderly hash) s) :
    Upheld hash openBefore s :=
  (h.invariant (fun _ ↦ sound_of_init) fun _ _ _ hs horderly hnext ↦
    hs.next horderly hnext).upheld

end

/-- Nobody starts a second listener, leaves a window that is theirs, or fails to shred. -/
private def uneventful (s : Server) : Act → Bool
  | .started .. => s.enrollment.isNone
  | .leave run =>
    match s.runs run with
    | some (.leaving _ owner) => !owner
    | _ => true
  | .shredded _ raised now => !raised && decide (now ≠ 0)
  | _ => true

private theorem orderly_of_uneventful (s : Server) (act : Act) (h : uneventful s act = true) :
    Orderly id s act := by
  rcases act
  case started run ok => exact fun _ ↦ Option.isNone_iff_eq_none.mp h
  case leave run =>
    intro secret hrun
    rw [uneventful, hrun] at h
    cases h
  case shredded run raised now =>
    intro secret hrun
    rw [uneventful, Bool.and_eq_true, Bool.not_eq_true', decide_eq_true_eq] at h
    exact .inl h
  all_goals trivial

/-- A control plane with an empty ledger and a closed listener. -/
private def closedServer : Server := { desk := { ledger := {}, clock := 1 } }

private theorem closedServer_init : (system id false).init closedServer :=
  ⟨⟨{}, 1, rfl⟩, fun _ ↦ rfl, rfl, rfl⟩

/-- An install opens the window, and another comes and goes in it. -/
private def guestComes : List Act :=
  [.begin 0 "a" "one" "" 1, .started 0 true, .command 0, .begin 1 "b" "two" "" 2, .command 1,
    .ledger (.redeem "b" "node" 3), .over 1, .leave 1, .shredded 1 false 4, .finish 1, .over 0]

private def hostLeaves : List Act := [.stopped 0, .shredded 0 false 5, .finish 0]

theorem upheld_guestComes : ∃ s, s.runs 0 = some (.ended "a") ∧ s.runs 1 = some (.ended "b") ∧
    Upheld id false s := by
  obtain ⟨s, hcomes, hnobody, t, hleaves, u, hends, hhost, hguest⟩ :
      ∃ s, (system id false).runUnder (fun s a ↦ uneventful s a = true) closedServer guestComes =
          some s ∧
        (∀ other stage, s.runs other = some stage → stage.enrols = false) ∧
          ∃ t, (system id false).next s (.leave 0) = some t ∧
            ∃ u, (system id false).runUnder (fun s a ↦ uneventful s a = true) t hostLeaves =
              some u ∧ u.runs 0 = some (.ended "a") ∧ u.runs 1 = some (.ended "b") := by
    refine ⟨_, rfl, ?_, _, rfl, _, rfl, rfl, rfl⟩
    rintro (_ | _ | other) stage hstage <;> cases hstage <;> rfl
  refine ⟨u, hhost, hguest, upheld_of_orderly ⟨closedServer, closedServer_init, ?_⟩⟩
  have horderly : Orderly id s (.leave 0) := fun _ _ ↦ hnobody
  refine .trans (.tail ?_ horderly hleaves) ?_
  · exact (System.steps_of_runUnder hcomes).mono orderly_of_uneventful
  · exact (System.steps_of_runUnder hends).mono orderly_of_uneventful

/-- An install opens the window, and leaves it under another that is enrolling. -/
private def hostLeavesGuest : List Act :=
  [.begin 0 "a" "one" "" 1, .started 0 true, .command 0, .begin 1 "b" "two" "" 2, .command 1,
    .over 0, .leave 0]

/-- Two installs find the listener closed, and start one each. -/
private def twoListeners : List Act :=
  [.begin 0 "a" "one" "" 1, .begin 1 "b" "two" "" 1, .started 0 true, .started 1 true, .over 0,
    .leave 0, .over 1, .leave 1]

/-- The session is dead when the token file is to be shredded. -/
private def deadSession : List Act :=
  [.begin 0 "a" "one" "" 1, .started 0 true, .over 0, .leave 0, .stopped 0, .shredded 0 true 1]

/-- They do not in general. The listener is closed under an install that is enrolling, another one
serves on when everybody has left, and the token of an install whose session died can be
redeemed. -/
theorem installs_not_upheld :
    (∃ s, (system id false).Reachable Guard.free s ∧ s.runs 1 = some (.enrolling "b" false) ∧
      s.listening = []) ∧
    (∃ s, (system id false).Reachable Guard.free s ∧ s.listening ≠ [] ∧
      ∀ run stage, s.runs run = some stage → stage.inWindow = false) ∧
    ∃ s, (system id false).Reachable Guard.free s ∧ s.runs 0 = some (.ended "a") ∧
      Redeemable id s.desk.ledger s.desk.clock "a" := by
  have hreachable (acts : List Act) {s : Server}
      (h : (system id false).run closedServer acts = some s) :
      (system id false).Reachable Guard.free s :=
    ⟨closedServer, closedServer_init, System.steps_of_run h⟩
  refine ⟨⟨_, hreachable hostLeavesGuest rfl, rfl, rfl⟩,
    ⟨_, hreachable twoListeners rfl, ?_, ?_⟩,
    _, hreachable deadSession rfl, rfl, "node", "node", rfl⟩
  · exact List.cons_ne_nil _ _
  · rintro (_ | _ | run) stage hstage <;> cases hstage <;> rfl

end SparkPulse.Agent.Bootstrap
